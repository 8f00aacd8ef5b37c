import RecordFlow.Csv.Reader
import RecordFlow.Proofs.Evaluation
import RecordFlow.Proofs.Schema.Shaped

/-! Records read from delimited text. Batches hold nothing but records of the rows, and a row
becomes a record of the columns of the schema, each cell shaped by its column. -/

namespace RecordFlow

/-! ### Batches -/

namespace Reader

theorem take_mem {max : Nat} {rows : List (Except ReadError Record)} :
    (∀ row ∈ (take max rows).2, row ∈ rows) ∧
      ∀ records ended, (take max rows).1 = .ok (records, ended) → ∀ r ∈ records, .ok r ∈ rows := by
  induction max generalizing rows with
  | zero => simp [take]
  | succ max ih =>
    cases rows with
    | nil => simp [take]
    | cons row rows =>
      cases row with
      | error e => simp +contextual [take]
      | ok record =>
        obtain ⟨rest, taken⟩ := @ih rows
        rcases h : take max rows with ⟨result, left⟩
        rw [h] at rest taken
        cases result with
        | error e =>
          simp only [take, h]
          exact ⟨fun row hrow => List.mem_cons_of_mem _ (rest row hrow), nofun⟩
        | ok batch =>
          obtain ⟨records, ended⟩ := batch
          simp only [take, h]
          refine ⟨fun row hrow => List.mem_cons_of_mem _ (rest row hrow), ?_⟩
          rintro _ _ ⟨⟩ r hr
          rcases List.mem_cons.mp hr with rfl | hr
          · exact List.mem_cons_self ..
          · exact List.mem_cons_of_mem _ (taken records ended rfl r hr)

theorem nextBatch_mem {r : Reader} {max : Nat} :
    (∀ row ∈ (r.nextBatch max).2.rows, row ∈ r.rows) ∧
      ∀ records, (r.nextBatch max).1 = .ok (some records) → ∀ x ∈ records, .ok x ∈ r.rows := by
  unfold nextBatch
  split
  · exact ⟨fun _ h => h, nofun⟩
  · obtain ⟨rest, taken⟩ := @take_mem max r.rows
    rcases h : take max r.rows with ⟨result, left⟩
    rw [h] at rest taken
    cases result with
    | error e => exact ⟨rest, nofun⟩
    | ok batch =>
      obtain ⟨batch, ended⟩ := batch
      refine ⟨rest, fun records he => ?_⟩
      simp only at he
      split at he
      · cases he
      · cases he
        exact taken batch ended rfl

theorem readBatches_mem {fuel : Nat} {r : Reader} {records : List Record}
    (h : (readBatches fuel r).1 = .ok records) : ∀ x ∈ records, .ok x ∈ r.rows := by
  induction fuel generalizing r records with
  | zero =>
    cases h
    simp
  | succ fuel ih =>
    obtain ⟨rest, taken⟩ := @nextBatch_mem r batchSize
    rcases hb : r.nextBatch batchSize with ⟨result, r'⟩
    rw [hb] at rest taken
    simp only [readBatches, hb] at h
    match result with
    | .error e => cases h
    | .ok none =>
      cases h
      simp
    | .ok (some batch) =>
      rcases hm : readBatches fuel r' with ⟨more, r''⟩
      simp only [hm] at h
      cases more with
      | error e => cases h
      | ok more =>
        cases h
        intro x hx
        rcases List.mem_append.mp hx with hx | hx
        · exact taken batch rfl x hx
        · exact rest _ (ih (congrArg Prod.fst hm) x hx)

/-- All that is read are records of rows. -/
theorem readAll_mem {r : Reader} {records : List Record} (h : r.readAll.1 = .ok records) :
    ∀ x ∈ records, .ok x ∈ r.rows :=
  readBatches_mem h

end Reader

/-! ### Rows -/

namespace Projection

variable {names : List String} {record : String} {cs : List Column}

theorem ofColumns_eq_ok (nullable : ∀ c ∈ cs, c.name ∉ names → c.nullable = true) :
    ofColumns names record cs = .ok (cs.map fun c => names.findIdx? (· == c.name)) := by
  induction cs with
  | nil => rfl
  | cons c cs ih =>
    obtain ⟨first, nullable⟩ := List.forall_mem_cons.mp nullable
    rw [ofColumns, ih nullable, List.map_cons]
    cases found : names.findIdx? (· == c.name) with
    | some position => rfl
    | none =>
      have missing : c.name ∉ names := fun h => by
        simpa using List.findIdx?_eq_none_iff.mp found c.name h
      simp only [first missing, if_true]
      rfl

theorem nullable_of_ofColumns {positions : List (Option Nat)}
    (h : ofColumns names record cs = .ok positions) :
    ∀ c ∈ cs, c.name ∉ names → c.nullable = true := by
  induction cs generalizing positions with
  | nil => simp
  | cons c cs ih =>
    rw [ofColumns] at h
    split at h
    · next found =>
      obtain ⟨rest, hrest, -⟩ := exists_of_bind_ok h
      refine List.forall_mem_cons.mpr ⟨fun missing => absurd ?_ missing, ih hrest⟩
      obtain ⟨bound, same, -⟩ := List.findIdx?_eq_some_iff_getElem.mp found
      exact beq_iff_eq.mp same ▸ List.getElem_mem bound
    · split at h
      · next nullable =>
        obtain ⟨rest, hrest, -⟩ := exists_of_bind_ok h
        exact List.forall_mem_cons.mpr ⟨fun _ => nullable, ih hrest⟩
      · cases h

/-- Only columns that may be null are missing, and each column has the position of its name. -/
theorem ofColumns_eq_ok_iff {positions : List (Option Nat)} :
    ofColumns names record cs = .ok positions ↔
      (∀ c ∈ cs, c.name ∉ names → c.nullable = true) ∧
        positions = cs.map fun c => names.findIdx? (· == c.name) := by
  constructor
  · intro h
    have nullable := nullable_of_ofColumns h
    exact ⟨nullable, Except.ok.inj (h.symm.trans (ofColumns_eq_ok nullable))⟩
  · rintro ⟨nullable, rfl⟩
    exact ofColumns_eq_ok nullable

theorem ofNames_eq_ok_iff {s : Schema} {p : Projection} : ofNames s names = .ok p ↔
    (∀ c ∈ s.columns, c.name ∉ names → c.nullable = true) ∧
      p.positions = s.columns.map fun c => names.findIdx? (· == c.name) := by
  obtain ⟨positions⟩ := p
  rw [← @ofColumns_eq_ok_iff names s.name s.columns, ofNames]
  cases ofColumns names s.name s.columns with
  | error e => simp [bind, Except.bind]
  | ok found => simp [bind, Except.bind, pure, Except.pure]

end Projection

namespace Csv

theorem parseCell_shaped {text : String} {c : Column} {v : Value}
    (stable : ∀ v, c.conform (c.conform v) = c.conform v) (h : parseCell text c = .ok v) :
    c.conform v = v := by
  unfold parseCell at h
  split at h
  · cases h
    exact c.conform_null
  · obtain ⟨w, -, h⟩ := exists_of_bind_ok h
    cases h
    exact stable w

/-- The value of a column that stands at a position of the source. -/
def cellValue (texts : List String) (c : Column) (position : Option Nat) :
    Except ReadError Value :=
  match position.bind (texts[·]?) with
  | some text => parseCell text c
  | none => .ok .null

theorem parseColumns_cons_eq_ok_iff {texts : List String} {c : Column} {cs : List Column}
    {position : Option Nat} {positions : List (Option Nat)} {fields : List (String × Value)} :
    parseColumns texts (c :: cs) (position :: positions) = .ok fields ↔
      ∃ v rest, cellValue texts c position = .ok v ∧ parseColumns texts cs positions = .ok rest ∧
        fields = (c.name, v) :: rest := by
  have first : parseColumns texts (c :: cs) (position :: positions) = (do
      let v ← cellValue texts c position
      return (c.name, v) :: (← parseColumns texts cs positions)) := by
    rw [parseColumns, cellValue]
    cases position.bind (texts[·]?) <;> rfl
  rw [first]
  cases cellValue texts c position with
  | error e => simp [bind, Except.bind]
  | ok v =>
    cases parseColumns texts cs positions with
    | error e => simp [bind, Except.bind]
    | ok rest => simp [bind, Except.bind, pure, Except.pure, eq_comm]

theorem cellValue_shaped {texts : List String} {c : Column} {position : Option Nat} {v : Value}
    (stable : ∀ v, c.conform (c.conform v) = c.conform v)
    (h : cellValue texts c position = .ok v) : c.conform v = v := by
  unfold cellValue at h
  split at h
  · exact parseCell_shaped stable h
  · cases h
    exact c.conform_null

theorem parseColumns_shaped {texts : List String} {cs : List Column} {positions : List (Option Nat)}
    {fields : List (String × Value)} (hlength : positions.length = cs.length)
    (stable : ∀ c ∈ cs, ∀ v, c.conform (c.conform v) = c.conform v)
    (h : parseColumns texts cs positions = .ok fields) :
    List.Forall₂ (fun c f => f.1 = c.name ∧ c.conform f.2 = f.2) cs fields := by
  induction cs generalizing positions fields with
  | nil =>
    cases h
    exact .nil
  | cons c cs ih =>
    obtain ⟨position, positions, rfl⟩ : ∃ x xs, positions = x :: xs :=
      List.exists_cons_of_length_eq_add_one hlength
    obtain ⟨v, rest, hv, hrest, rfl⟩ := parseColumns_cons_eq_ok_iff.mp h
    exact .cons ⟨rfl, cellValue_shaped (stable c List.mem_cons_self) hv⟩
      (ih (by simpa using hlength) (fun d hd => stable d (List.mem_cons_of_mem _ hd)) hrest)

/-- Every record that is read has the columns of the schema. -/
theorem readerOf_shaped {d : Dialect} {schema : Schema} {names : List String}
    {rows : List (List Bytes)} {reader : Reader} (stable : schema.Stable)
    (h : readerOf d schema names rows = .ok reader) :
    ∀ r, .ok r ∈ reader.rows → schema.conform r = r := by
  obtain ⟨p, hp, h⟩ := exists_of_bind_ok h
  cases h
  intro r hr
  obtain ⟨row, -, hrow⟩ := List.mem_map.mp hr
  obtain ⟨texts, -, hrow⟩ := exists_of_bind_ok hrow
  obtain ⟨fields, hfields, hrow⟩ := exists_of_bind_ok hrow
  cases hrow
  have length : p.positions.length = schema.columns.length := by
    rw [(Projection.ofNames_eq_ok_iff.mp hp).2, List.length_map]
  exact stable.conform_of_forall₂ (parseColumns_shaped length stable.columns hfields)

theorem openText_shaped {d : Dialect} {schema : Schema} {text : Bytes} {reader : Reader}
    (stable : schema.Stable) (h : openText d schema text = .ok reader) :
    ∀ r, .ok r ∈ reader.rows → schema.conform r = r := by
  unfold openText at h
  split at h
  · obtain ⟨names, -, h⟩ := exists_of_bind_ok h
    exact readerOf_shaped stable h
  · exact readerOf_shaped stable h

end Csv

end RecordFlow
