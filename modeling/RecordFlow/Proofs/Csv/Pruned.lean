import RecordFlow.Proofs.Csv.Reader
import RecordFlow.Proofs.Schema.Derivation
import RecordFlow.Proofs.Schema.Prunes
import RecordFlow.Proofs.Value.Fields

/-! Fewer columns read from delimited text. The columns of a pruned schema stand at positions of their
own, cells without a column are passed over, and JSON in a cell is pruned inside. Main statement:
whenever all rows are read with a schema, they are read with what is left of it, as the same records
without the columns that were deleted. -/

namespace RecordFlow.Csv

variable {names texts : List String} {c d : Column} {cs ds : List Column}

/-- What a text stands for depends on the declared type only, which pruning does not change. -/
theorem parseCell_narrow (narrow : c.Narrows d) {text : String} {v : Value}
    (h : parseCell text c = .ok v) : parseCell text d = .ok (d.conform v) := by
  unfold parseCell at h ⊢
  rw [narrow.type, narrow.nullable]
  split at h
  · next empty =>
    cases h
    rw [if_pos empty, d.conform_null]
  · next filled =>
    obtain ⟨whole, parsed, h⟩ := exists_of_bind_ok h
    cases h
    rw [if_neg filled, parsed, narrow.conform]
    rfl

theorem cellValue_narrow (narrow : c.Narrows d) {position : Option Nat} {v : Value}
    (h : cellValue texts c position = .ok v) : cellValue texts d position = .ok (d.conform v) := by
  unfold cellValue at h ⊢
  split at h
  · exact parseCell_narrow narrow h
  · cases h
    rw [d.conform_null]

/-- The value of a column found by name. -/
def namedValue (names texts : List String) (c : Column) : Except ReadError Value :=
  cellValue texts c (names.findIdx? (· == c.name))

theorem parseColumns_of_named {value : Column → Value}
    (h : ∀ c ∈ cs, namedValue names texts c = .ok (value c)) :
    parseColumns texts cs (cs.map fun c => names.findIdx? (· == c.name)) =
      .ok (cs.map fun c => (c.name, value c)) := by
  induction cs with
  | nil => rfl
  | cons c cs ih =>
    obtain ⟨first, rest⟩ := List.forall_mem_cons.mp h
    exact parseColumns_cons_eq_ok_iff.mpr ⟨_, _, first, ih rest, rfl⟩

theorem named_of_parseColumns {fields : List (String × Value)}
    (h : parseColumns texts cs (cs.map fun c => names.findIdx? (· == c.name)) = .ok fields) :
    fields.map (·.1) = cs.map (·.name) ∧
      ∀ c ∈ cs, ∃ v, namedValue names texts c = .ok v ∧ (c.name, v) ∈ fields := by
  induction cs generalizing fields with
  | nil =>
    cases h
    simp
  | cons c cs ih =>
    obtain ⟨v, rest, first, hrest, rfl⟩ := parseColumns_cons_eq_ok_iff.mp h
    obtain ⟨sameNames, values⟩ := ih hrest
    refine ⟨congrArg (c.name :: ·) sameNames, List.forall_mem_cons.mpr
      ⟨⟨v, first, List.mem_cons_self⟩, fun d hd => ?_⟩⟩
    obtain ⟨w, value, mem⟩ := values d hd
    exact ⟨w, value, List.mem_cons_of_mem _ mem⟩

variable {s t : Schema} {p p' : Projection}

/-- A row that is read with a schema is read with what is left of it. -/
theorem parseRecord_narrow (distinct : s.names.Nodup)
    (narrows : ∀ d ∈ t.columns, ∃ c ∈ s.columns, c.Narrows d)
    (hp : p.positions = s.columns.map fun c => names.findIdx? (· == c.name))
    (hp' : p'.positions = t.columns.map fun c => names.findIdx? (· == c.name)) {r : Record}
    (h : parseRecord s p texts = .ok r) : parseRecord t p' texts = .ok (t.conform r) := by
  unfold parseRecord at h ⊢
  rw [hp] at h
  obtain ⟨fields, hfields, h⟩ := exists_of_bind_ok h
  cases h
  obtain ⟨sameNames, values⟩ := named_of_parseColumns hfields
  rw [hp', parseColumns_of_named fun d hd => ?_, Schema.conform_eq]
  · rfl
  · obtain ⟨c, hc, narrow⟩ := narrows d hd
    obtain ⟨v, value, mem⟩ := values c hc
    have found : (Record.mk fields).value d.name = v := by
      rw [narrow.name, Record.value, Record.get?, lookup_of_mem (sameNames ▸ distinct) mem]
      rfl
    rw [namedValue, found, narrow.name]
    exact cellValue_narrow narrow value

/-- Reading fewer columns reads the same data. -/
theorem parseRecords_pruned {type : RecordType} (derived : Schema.ofRecordType type = .ok s)
    (pruned : s.Prunes t) (hp : Projection.ofNames s names = .ok p) {rows : List (List String)}
    {records : List Record} (read : rows.mapM (parseRecord s p) = .ok records) :
    ∃ p', Projection.ofNames t names = .ok p' ∧
      rows.mapM (parseRecord t p') = .ok (records.map t.conform) := by
  have distinct := Schema.distinct_of_ofRecordType derived
  have narrows := pruned.narrows distinct
  obtain ⟨nullable, positions⟩ := Projection.ofNames_eq_ok_iff.mp hp
  refine ⟨⟨t.columns.map fun c => names.findIdx? (· == c.name)⟩,
    Projection.ofNames_eq_ok_iff.mpr ⟨fun d hd missing => ?_, rfl⟩, mapM_eq_ok_map (fun row r hr => ?_) read⟩
  · obtain ⟨c, hc, narrow⟩ := narrows d hd
    rw [narrow.nullable]
    exact nullable c hc (narrow.name ▸ missing)
  · exact parseRecord_narrow (distinct s (Schema.mem_parts.mpr (.inl rfl))) narrows positions rfl hr

def home : RecordType := ⟨"home", [⟨"street", .string, false⟩, ⟨"city", .string, true⟩]⟩

def resident : RecordType :=
  ⟨"resident", [⟨"name", .string, false⟩, ⟨"homes", .list (.struct home), true⟩,
    ⟨"age", .int32, true⟩]⟩

/-- Without the names of the residents and the cities of their homes. -/
def unnamed : Schema :=
  ⟨"resident", [⟨"homes", .list (.struct home), true, some ⟨"home",
    [⟨"street", .string, false, none⟩]⟩⟩, ⟨"age", .int32, true, none⟩]⟩

theorem resident_prunes : resident.schema.Prunes unnamed :=
  ⟨rfl, .delete (.nested (.flat (.delete .nil)) (.flat .nil))⟩

/-- The text has two columns of one name and none for the age; the second row is cut short. -/
theorem residents_read :
    ∃ p', Projection.ofNames unnamed ["name", "homes", "name"] = .ok p' ∧
      [["Ann", "[\x7b\"city\": \"Bath\"\x7d, null]", "Eve"], ["Bob"]].mapM
          (parseRecord unnamed p') =
        .ok [⟨[("homes", .list [.record ⟨[("street", .null)]⟩, .null]), ("age", .null)]⟩,
          ⟨[("homes", .null), ("age", .null)]⟩] :=
  @parseRecords_pruned ["name", "homes", "name"] resident.schema unnamed ⟨[some 0, some 1, none]⟩
    resident rfl resident_prunes rfl _
    [⟨[("name", .text "Ann"), ("homes", .list [.record ⟨[("street", .null),
        ("city", .text "Bath")]⟩, .null]), ("age", .null)]⟩,
      ⟨[("name", .text "Bob"), ("homes", .null), ("age", .null)]⟩] (by decide +kernel)

end RecordFlow.Csv
