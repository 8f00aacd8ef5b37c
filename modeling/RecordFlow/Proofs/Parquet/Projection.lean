import RecordFlow.Proofs.Evaluation
import RecordFlow.Proofs.Parquet.Restriction
import RecordFlow.Proofs.Schema.Derivation
import RecordFlow.Proofs.Schema.Prunes

/-! The projection of a file onto the columns of a schema. Main statement: it succeeds just if no column
is missing that may not be null, and a row restricted to the projected fields becomes the same record
as the whole row. -/

namespace RecordFlow.Parquet

/-- Among some fields of a file a column is looked for. Columns in plain groups are looked for among
the fields of the group; what is nested in other fields is not looked for. -/
inductive Seeks : List FileType → List Column → List FileType → Column → Prop
  | here {fields : List FileType} {cs : List Column} {c : Column} : c ∈ cs → Seeks fields cs fields c
  | inside {fields within among : List FileType} {cs : List Column} {c d : Column} {nested : Schema}
      {name : String} {repetition : Option Repetition} {converted : Converted} :
      c ∈ cs → c.nested = some nested →
      fields.find? (·.name == c.name) = some (.group name repetition converted within) →
      converted.isCollection = false → Seeks within nested.columns among d → Seeks fields cs among d

/-- No column is missing that may not be null. -/
def Complete (fields : List FileType) (cs : List Column) : Prop :=
  ∀ among d, Seeks fields cs among d → d.nullable = false → ∃ field ∈ among, field.name = d.name

variable {fields p : List FileType} {cs : List Column} {c : Column} {record : String}
  {field first : FileType} {row : Row}

/-! ### Steps -/

theorem projectFields_cons_eq_ok_iff : projectFields fields record (c :: cs) = .ok p ↔
    ∃ rest, projectFields fields record cs = .ok rest ∧
      match fields.find? (·.name == c.name) with
      | some field => ∃ first, projectColumn field c = .ok first ∧ p = first :: rest
      | none => c.nullable = true ∧ p = rest := by
  rw [projectFields]
  cases fields.find? (·.name == c.name) with
  | some field =>
    constructor
    · intro h
      obtain ⟨first, hfirst, h⟩ := exists_of_bind_ok h
      obtain ⟨rest, hrest, h⟩ := exists_of_bind_ok h
      cases h
      exact ⟨rest, hrest, first, hfirst, rfl⟩
    · rintro ⟨rest, hrest, first, hfirst, rfl⟩
      simp only [hfirst, hrest]
      rfl
  | none => cases c.nullable <;> simp

/-- Groups that are neither lists nor maps. -/
def FileType.isPlain : FileType → Bool
  | .leaf _ _ _ _ _ => false
  | .group _ _ converted _ => !converted.isCollection

/-- What a column needs of a field: of a plain group the fields that what is nested in the column
needs, of anything else all. -/
inductive Selects (field : FileType) (c : Column) : FileType → Prop
  | whole : c.nested = none ∨ field.isPlain = false → Selects field c field
  | narrowed {nested : Schema} {name : String} {repetition : Option Repetition}
      {converted : Converted} {within narrowed : List FileType} :
      field = .group name repetition converted within → converted.isCollection = false →
      c.nested = some nested → projectFields within nested.name nested.columns = .ok narrowed →
      Selects field c (.group name repetition .none narrowed)

theorem projectColumn_eq_ok_iff : projectColumn field c = .ok first ↔ Selects field c first := by
  obtain ⟨_, _, _, _ | ⟨record, inner⟩⟩ := c
  · rw [projectColumn, Except.ok.injEq]
    constructor
    · rintro rfl
      exact .whole (.inl rfl)
    · rintro (_ | ⟨-, -, nested, -⟩)
      · rfl
      · cases nested
  rcases field with _ | ⟨name, repetition, converted, within⟩
  · rw [projectColumn, Except.ok.injEq]
    constructor
    · rintro rfl
      exact .whole (.inr rfl)
    · rintro (_ | ⟨group, -, -, -⟩)
      · rfl
      · cases group
  rw [projectColumn]
  cases collection : converted.isCollection with
  | true =>
    constructor
    · rintro ⟨⟩
      exact .whole (.inr (by simp [FileType.isPlain, collection]))
    · rintro (_ | ⟨⟨⟩, plain, -, -⟩)
      · rfl
      · cases collection.symm.trans plain
  | false =>
    constructor
    · intro h
      obtain ⟨narrowed, hn, h⟩ := exists_of_bind_ok h
      cases h
      exact .narrowed rfl collection rfl hn
    · rintro (⟨none | plain⟩ | ⟨⟨⟩, -, ⟨⟩, hn⟩)
      · cases none
      · simp [FileType.isPlain, collection] at plain
      · simp only [hn]
        rfl

theorem Selects.name (h : Selects field c first) : first.name = field.name := by
  cases h with
  | whole => rfl
  | narrowed group => rw [group]; rfl

/-! ### Success -/

/-- What is looked for on behalf of the first column, and on behalf of the others. -/
theorem complete_cons_iff : Complete fields (c :: cs) ↔
    ((c.nullable = false → ∃ field ∈ fields, field.name = c.name) ∧
      ∀ nested name repetition converted within, c.nested = some nested →
        fields.find? (·.name == c.name) = some (.group name repetition converted within) →
        converted.isCollection = false → Complete within nested.columns) ∧
      Complete fields cs := by
  constructor
  · refine fun all => ⟨⟨all _ _ (.here List.mem_cons_self), ?_⟩, fun among d seeks => ?_⟩
    · intro nested name repetition converted within hnested found plain among d seeks
      exact all among d (.inside List.mem_cons_self hnested found plain seeks)
    · refine all among d ?_
      cases seeks with
      | here hd => exact .here (List.mem_cons_of_mem _ hd)
      | inside hc nested found plain seeks =>
        exact .inside (List.mem_cons_of_mem _ hc) nested found plain seeks
  · rintro ⟨⟨here, inside⟩, rest⟩ among d seeks
    cases seeks with
    | here hd =>
      rcases List.mem_cons.mp hd with rfl | hd
      · exact here
      · exact rest _ _ (.here hd)
    | inside hc nested found plain seeks =>
      rcases List.mem_cons.mp hc with rfl | hc
      · exact inside _ _ _ _ _ nested found plain _ _ seeks
      · exact rest _ _ (.inside hc nested found plain seeks)

theorem find?_eq_none_iff {name : String} : fields.find? (·.name == name) = none ↔
    ¬ ∃ field ∈ fields, field.name = name := by
  simp

theorem exists_selects_iff : (∃ first, Selects field c first) ↔
    ∀ nested name repetition converted within, c.nested = some nested →
      field = .group name repetition converted within → converted.isCollection = false →
      ∃ narrowed, projectFields within nested.name nested.columns = .ok narrowed := by
  constructor
  · rintro ⟨first, whole | ⟨group, -, hnested, hn⟩⟩ nested name repetition converted within
      hnested' group' plain
    · rcases whole with none | whole
      · cases none.symm.trans hnested'
      · simp [group', FileType.isPlain, plain] at whole
    · cases group.symm.trans group'
      cases hnested.symm.trans hnested'
      exact ⟨_, hn⟩
  · intro inside
    by_cases whole : c.nested = none ∨ field.isPlain = false
    · exact ⟨field, .whole whole⟩
    · rw [not_or, Bool.not_eq_false] at whole
      obtain ⟨nested, hnested⟩ := Option.ne_none_iff_exists'.mp whole.1
      rcases field with _ | ⟨name, repetition, converted, within⟩
      · cases whole.2
      · have plain : converted.isCollection = false := by simpa [FileType.isPlain] using whole.2
        obtain ⟨narrowed, hn⟩ := inside nested name repetition converted within hnested rfl plain
        exact ⟨_, .narrowed rfl plain hnested hn⟩

/-- A column more succeeds if it is there or may be missing, and in a plain group if the columns nested
in it do. -/
theorem exists_projectFields_cons_iff : (∃ p, projectFields fields record (c :: cs) = .ok p) ↔
    ((c.nullable = false → ∃ field ∈ fields, field.name = c.name) ∧
      ∀ field, fields.find? (·.name == c.name) = some field → ∃ first, Selects field c first) ∧
      ∃ rest, projectFields fields record cs = .ok rest := by
  simp only [projectFields_cons_eq_ok_iff, projectColumn_eq_ok_iff]
  cases found : fields.find? (·.name == c.name) with
  | some field =>
    have there : ∃ field ∈ fields, field.name = c.name :=
      ⟨field, List.mem_of_find?_eq_some found, by simpa using List.find?_some found⟩
    constructor
    · rintro ⟨p, rest, hrest, first, selects, -⟩
      exact ⟨⟨fun _ => there, fun _ same => Option.some.inj same ▸ ⟨first, selects⟩⟩, rest, hrest⟩
    · rintro ⟨⟨-, selects⟩, rest, hrest⟩
      obtain ⟨first, selects⟩ := selects field rfl
      exact ⟨_, rest, hrest, first, selects, rfl⟩
  | none =>
    have missing := find?_eq_none_iff.mp found
    constructor
    · rintro ⟨p, rest, hrest, nullable, -⟩
      exact ⟨⟨fun required => by simp [nullable] at required, nofun⟩, rest, hrest⟩
    · rintro ⟨⟨required, -⟩, rest, hrest⟩
      have nullable : c.nullable = true := by
        rw [← Bool.not_eq_false]
        exact fun h => missing (required h)
      exact ⟨rest, rest, hrest, nullable, rfl⟩

/-- The projection succeeds just if no column is missing that may not be null. -/
theorem exists_projectFields_iff :
    (∃ p, projectFields fields record cs = .ok p) ↔ Complete fields cs := by
  -- The fields vary: nested columns are looked for among those of a group.
  induction cs using Column.induction generalizing fields record with
  | nil => exact iff_of_true ⟨[], rfl⟩ fun _ _ seeks => by cases seeks <;> contradiction
  | flat name type nullable rest ih =>
    rw [exists_projectFields_cons_iff, complete_cons_iff, ih]
    refine and_congr_left fun _ => and_congr_right fun _ => iff_of_true ?_ nofun
    exact fun field _ => ⟨field, .whole (.inl rfl)⟩
  | nested name type nullable _ inner rest ihInner ihRest =>
    rw [exists_projectFields_cons_iff, complete_cons_iff, ihRest]
    refine and_congr_left fun _ => and_congr_right fun _ => ?_
    simp only [exists_selects_iff]
    constructor
    · rintro selects _ _ _ _ within ⟨⟩ found plain
      exact ihInner.mp (selects _ found _ _ _ _ within rfl rfl plain)
    · rintro complete _ found _ _ _ _ within ⟨⟩ rfl plain
      exact ihInner.mpr (complete _ _ _ _ within rfl found plain)

/-! ### Rows -/

/-- The projected fields have the names of columns, in their order. -/
theorem projectFields_names (h : projectFields fields record cs = .ok p) :
    (p.map (·.name)).Sublist (cs.map (·.name)) := by
  induction cs generalizing p with
  | nil =>
    cases h
    exact .slnil
  | cons c cs ih =>
    obtain ⟨rest, hrest, h⟩ := projectFields_cons_eq_ok_iff.mp h
    split at h
    · next field found =>
      obtain ⟨first, selects, rfl⟩ := h
      have name : first.name = c.name :=
        (projectColumn_eq_ok_iff.mp selects).name.trans (by simpa using List.find?_some found)
      rw [List.map_cons, List.map_cons, name]
      exact (ih hrest).cons_cons _
    · exact h.2 ▸ (ih hrest).cons _

/-- A column finds among the projected fields what it selects of the field that it finds in the file. -/
theorem find?_projectFields (distinct : (cs.map (·.name)).Nodup)
    (h : projectFields fields record cs = .ok p) : ∀ c ∈ cs,
      match fields.find? (·.name == c.name) with
      | some field => ∃ first, Selects field c first ∧ p.find? (·.name == c.name) = some first
      | none => p.find? (·.name == c.name) = none := by
  induction cs generalizing p with
  | nil => simp
  | cons c cs ih =>
    obtain ⟨new, distinct⟩ := List.nodup_cons.mp distinct
    obtain ⟨rest, hrest, h⟩ := projectFields_cons_eq_ok_iff.mp h
    have later := ih distinct hrest
    have absent : rest.find? (·.name == c.name) = none := find?_eq_none_iff.mpr
      fun ⟨field, hf, same⟩ => new ((projectFields_names hrest).subset
        (List.mem_map.mpr ⟨field, hf, same⟩))
    cases found : fields.find? (·.name == c.name) with
    | some field =>
      simp only [found, projectColumn_eq_ok_iff] at h
      obtain ⟨first, selects, rfl⟩ := h
      have name : first.name = c.name := selects.name.trans (by simpa using List.find?_some found)
      refine List.forall_mem_cons.mpr ⟨?_, fun d hd => ?_⟩
      · simp only [found, find?_cons_eq, name, if_true]
        exact ⟨first, selects, rfl⟩
      · have ne : d.name ≠ first.name := fun same =>
          new (List.mem_map.mpr ⟨d, hd, same.trans name⟩)
        simp only [find?_cons_eq, if_neg ne]
        exact later d hd
    | none =>
      simp only [found] at h
      obtain ⟨-, rfl⟩ := h
      refine List.forall_mem_cons.mpr ⟨?_, later⟩
      simp only [found]
      exact absent

/-- One column at a time: what it selects of a field shows it all that it shows of the field. -/
def Shows (c : Column) : Prop :=
  ∀ field first v, Selects field c first → Fits field v →
    c.conform (restrictField first v).toValue = c.conform v.toValue

theorem conform_restrictRow_of_shows {s : Schema} (distinct : s.names.Nodup)
    (shows : ∀ c ∈ s.columns, Shows c) (h : projectFields fields record s.columns = .ok p)
    (isRow : IsRow fields row) :
    s.conform (recordOf (restrictRow p row)) = s.conform (recordOf row) := by
  rw [Schema.conform_eq, Schema.conform_eq]
  refine congrArg Record.mk (List.map_congr_left fun c hc => congrArg (c.name, ·) ?_)
  rw [value_recordOf, value_recordOf,
    lookup_restrictRow (distinct.sublist (projectFields_names h))]
  have whole := lookup_of_isRow isRow c.name
  have projected := find?_projectFields distinct h c hc
  cases found : fields.find? (·.name == c.name) with
  | some field =>
    simp only [found] at whole projected
    obtain ⟨v, there, fits⟩ := whole
    obtain ⟨first, selects, read⟩ := projected
    rw [read, there]
    exact shows c hc field first v selects fits
  | none =>
    simp only [found] at whole projected
    rw [projected, whole]
    rfl

/-- Fields that are read whole show all; of the groups of a plain group the columns nested in the
column have to show all. -/
theorem shows_of_nested (records : ∀ nested, c.nested = some nested →
    ∀ within narrowed row, projectFields within nested.name nested.columns = .ok narrowed →
      IsRow within row →
        nested.conform (recordOf (restrictRow narrowed row)) = nested.conform (recordOf row)) :
    Shows c := by
  intro field first v selects fits
  cases selects with
  | whole => rw [restrictField_eq_self fits]
  | @narrowed nested name repetition converted within narrowed group plain hnested hn =>
    -- The projected group is plain whatever the group stood for, so its rows are restricted.
    subst group
    have groups : v.EveryGroup fun row => IsRow within row := by
      simpa only [Fits, plain, Bool.false_eq_true, if_false] using fits
    have read : restrictField (.group name repetition .none narrowed) v =
        v.mapGroups fun row => restrictRow narrowed row := by
      rw [restrictField]
      rfl
    obtain ⟨_, _, _, _⟩ := c
    cases hnested
    rw [read]
    exact Field.mapRecords_mapGroups
      (groups.imp fun row isRow => records nested rfl within narrowed row hn isRow)

theorem shows_of_distinct (distinct : ∀ t ∈ Column.partsAll cs, t.names.Nodup) :
    ∀ c ∈ cs, Shows c := by
  induction cs using Column.induction with
  | nil => simp
  | flat name type nullable rest ih =>
    exact List.forall_mem_cons.mpr ⟨shows_of_nested nofun, ih distinct⟩
  | nested name type nullable record inner rest ihInner ihRest =>
    rw [Column.partsAll_nested, List.forall_mem_cons, List.forall_mem_append] at distinct
    obtain ⟨here, inside, later⟩ := distinct
    refine List.forall_mem_cons.mpr ⟨shows_of_nested ?_, ihRest later⟩
    rintro _ ⟨⟩ within narrowed row hn isRow
    exact conform_restrictRow_of_shows here (ihInner inside) hn isRow

/-- A projection loses nothing that the schema reads. -/
theorem project_lossless {type : RecordType} {s t : Schema} (derived : Schema.ofRecordType type = .ok s)
    (pruned : s.Prunes t) (root : FileType) :
    ((∃ p, project root t = .ok p) ↔ Complete root.fields t.columns) ∧
      ∀ p, project root t = .ok p → ∀ row, IsRow root.fields row →
        t.conform (recordOf (restrictRow p.fields row)) = t.conform (recordOf row) := by
  have distinct := pruned.distinct (Schema.distinct_of_ofRecordType derived)
  constructor
  · rw [← @exists_projectFields_iff _ _ t.name, project]
    cases projectFields root.fields t.name t.columns with
    | error e => simp [bind, Except.bind]
    | ok p => simp [bind, Except.bind, pure, Except.pure]
  · intro p h row isRow
    obtain ⟨fields, hf, h⟩ := exists_of_bind_ok h
    cases h
    refine conform_restrictRow_of_shows (distinct t (Schema.mem_parts.mpr (.inl rfl))) ?_ hf isRow
    exact shows_of_distinct fun u hu => distinct u (Schema.mem_parts.mpr (.inr hu))

def note : FileType := .leaf "note" (some .optional) .byteArray .utf8 0

/-- Visitors with an id and the days and notes of their visits. -/
def visitors : FileType :=
  .group "visitors" none .none [.leaf "id" (some .required) .int64 .none 0,
    .group "visits" (some .repeated) .none [.leaf "day" (some .required) .int32 .date 0, note]]

def visit : RecordType := ⟨"visit", [⟨"note", .string, true⟩, ⟨"day", .int32, false⟩]⟩

def visitor : RecordType := ⟨"visitor",
  [⟨"name", .string, true⟩, ⟨"visits", .list (.struct visit), false⟩, ⟨"id", .int64, false⟩]⟩

/-- Names, of which the file has none, and the notes of visits. -/
def notes : Schema := ⟨"visitor", [⟨"name", .string, true, none⟩,
  ⟨"visits", .list (.struct visit), false, some ⟨"visit", [⟨"note", .string, true, none⟩]⟩⟩]⟩

theorem visitor_prunes : visitor.schema.Prunes notes :=
  ⟨rfl, .flat (.nested (.flat (.delete .nil)) (.delete .nil))⟩

def late : Row :=
  [("id", .int 7), ("visits", .list [.group [("day", .date 3), ("note", .text "late")]])]

theorem notes_read :
    Complete visitors.fields notes.columns ∧
      restrictRow [.group "visits" (some .repeated) .none [note]] late =
        [("visits", .list [.group [("note", .text "late")]])] ∧
      notes.conform (recordOf [("visits", .list [.group [("note", .text "late")]])]) =
        notes.conform (recordOf late) := by
  obtain ⟨complete, lossless⟩ :=
    @project_lossless visitor visitor.schema notes rfl visitor_prunes visitors
  refine ⟨complete.mp ⟨_, rfl⟩, rfl, lossless _ rfl late ?_⟩
  simp [late, visitors, note, FileType.fields, FileType.name, Fits, Converted.isCollection,
    Field.EveryGroup, Field.EveryGroupAll]

end RecordFlow.Parquet
