import RecordFlow.Parquet.Reader
import RecordFlow.Proofs.Value.Fields

/-! Rows restricted to some of their fields. What is read of a row is told by the projected fields
alone: plain groups are restricted, also where they repeat, and everything else is read whole. Main
statements: a row restricted to all its fields stays as it is, and fields of different names are read
independently of each other. -/

namespace RecordFlow.Parquet

abbrev Row := List (String × Field)

mutual

/-- Applies a function to every group reached through lists alone. -/
def Field.mapGroups (f : Row → Row) : Field → Field
  | .group row => .group (f row)
  | .list items => .list (Field.mapGroupsAll f items)
  | v => v

def Field.mapGroupsAll (f : Row → Row) : List Field → List Field
  | [] => []
  | v :: vs => v.mapGroups f :: Field.mapGroupsAll f vs

end

mutual

/-- Whether all groups reached through lists alone are as told. -/
def Field.EveryGroup (P : Row → Prop) : Field → Prop
  | .group row => P row
  | .list items => Field.EveryGroupAll P items
  | _ => True

def Field.EveryGroupAll (P : Row → Prop) : List Field → Prop
  | [] => True
  | v :: vs => v.EveryGroup P ∧ Field.EveryGroupAll P vs

end

mutual

/-- What is read of a row: for each projected field, in their order, the first field of its name that
was not read before. -/
def restrictRow : List FileType → Row → Row
  | [], _ => []
  | field :: rest, row =>
    match row.lookup field.name with
    | some v =>
      (field.name, restrictField field v) :: restrictRow rest (row.eraseP (·.1 == field.name))
    | none => restrictRow rest row

def restrictField : FileType → Field → Field
  | .leaf _ _ _ _ _, v => v
  | .group _ _ converted fields, v =>
    if converted.isCollection then v else v.mapGroups fun row => restrictRow fields row

end

mutual

/-- The rows of a file with some fields. -/
def IsRow : List FileType → Row → Prop
  | [], row => row = []
  | field :: rest, row =>
    ∃ v others, row = (field.name, v) :: others ∧ Fits field v ∧ IsRow rest others

/-- The groups of a plain group field, of which there may be none or several, are rows of its fields. -/
def Fits : FileType → Field → Prop
  | .leaf _ _ _ _ _, _ => True
  | .group _ _ converted fields, v =>
    if converted.isCollection then True else v.EveryGroup fun row => IsRow fields row

end

@[simp] theorem isRow_nil : IsRow [] [] := rfl

@[simp] theorem isRow_cons_iff {field : FileType} {rest : List FileType} {name : String} {v : Field}
    {others : Row} : IsRow (field :: rest) ((name, v) :: others) ↔
      name = field.name ∧ Fits field v ∧ IsRow rest others := by
  simp only [IsRow, List.cons.injEq, Prod.mk.injEq]
  constructor
  · rintro ⟨v, others, ⟨⟨rfl, rfl⟩, rfl⟩, fits, isRow⟩
    exact ⟨rfl, fits, isRow⟩
  · rintro ⟨rfl, fits, isRow⟩
    exact ⟨v, others, ⟨⟨rfl, rfl⟩, rfl⟩, fits, isRow⟩

/-! ### Groups in lists -/

mutual

theorem Field.mapGroups_eq_self {f : Row → Row} :
    ∀ {v : Field}, v.EveryGroup (fun row => f row = row) → v.mapGroups f = v
  | .group _, h => congrArg Field.group h
  | .list _, h => congrArg Field.list (Field.mapGroupsAll_eq_self h)
  | .null, _ | .bool _, _ | .int _, _ | .date _, _ | .instant _ _, _ | .float _ _, _ | .text _, _
  | .bytes _, _ | .decimal _ _, _ | .map _, _ => rfl

theorem Field.mapGroupsAll_eq_self {f : Row → Row} :
    ∀ {vs : List Field}, Field.EveryGroupAll (fun row => f row = row) vs →
      Field.mapGroupsAll f vs = vs
  | [], _ => rfl
  | _ :: _, h => by
    rw [Field.mapGroupsAll, Field.mapGroups_eq_self h.1, Field.mapGroupsAll_eq_self h.2]

end

mutual

theorem Field.EveryGroup.imp {P Q : Row → Prop} (pq : ∀ row, P row → Q row) :
    ∀ {v : Field}, v.EveryGroup P → v.EveryGroup Q
  | .group row, h => pq row h
  | .list _, h => Field.EveryGroupAll.imp pq h
  | .null, _ | .bool _, _ | .int _, _ | .date _, _ | .instant _ _, _ | .float _ _, _ | .text _, _
  | .bytes _, _ | .decimal _ _, _ | .map _, _ => trivial

theorem Field.EveryGroupAll.imp {P Q : Row → Prop} (pq : ∀ row, P row → Q row) :
    ∀ {vs : List Field}, Field.EveryGroupAll P vs → Field.EveryGroupAll Q vs
  | [], _ => trivial
  | _ :: _, h => ⟨Field.EveryGroup.imp pq h.1, Field.EveryGroupAll.imp pq h.2⟩

end

mutual

/-- A function of records that cannot tell groups from what is made of them cannot tell the values. -/
theorem Field.mapRecords_mapGroups {f : Row → Row} {F : Record → Record} :
    ∀ {v : Field}, v.EveryGroup (fun row => F (recordOf (f row)) = F (recordOf row)) →
      (v.mapGroups f).toValue.mapRecords F = v.toValue.mapRecords F
  | .group _, h => congrArg Value.record h
  | .list _, h => congrArg Value.list (Field.mapRecordsAll_mapGroupsAll h)
  | .null, _ | .bool _, _ | .int _, _ | .date _, _ | .instant _ _, _ | .float _ _, _ | .text _, _
  | .bytes _, _ | .decimal _ _, _ | .map _, _ => rfl

theorem Field.mapRecordsAll_mapGroupsAll {f : Row → Row} {F : Record → Record} :
    ∀ {vs : List Field}, Field.EveryGroupAll (fun row => F (recordOf (f row)) = F (recordOf row)) vs →
      Value.mapRecordsAll F (Field.toValues (Field.mapGroupsAll f vs)) =
        Value.mapRecordsAll F (Field.toValues vs)
  | [], _ => rfl
  | v :: vs, h => by
    simp only [Field.mapGroupsAll, Field.toValues, Value.mapRecordsAll,
      Field.mapRecords_mapGroups h.1, Field.mapRecordsAll_mapGroupsAll h.2]

end

/-! ### Whole rows -/

mutual

/-- All fields of a row are the row, also where several have one name. -/
theorem restrictRow_eq_self : ∀ {fields : List FileType} {row : Row}, IsRow fields row →
    restrictRow fields row = row
  | [], _, h => h.symm
  | field :: rest, _, ⟨v, others, rfl, fits, isRow⟩ => by
    have found : List.lookup field.name ((field.name, v) :: others) = some v :=
      List.lookup_cons_self
    have left : List.eraseP (·.1 == field.name) ((field.name, v) :: others) = others :=
      List.eraseP_cons_of_pos (beq_self_eq_true _)
    simp only [restrictRow, found, left, restrictField_eq_self fits, restrictRow_eq_self isRow]

theorem restrictField_eq_self : ∀ {field : FileType} {v : Field}, Fits field v →
    restrictField field v = v
  | .leaf _ _ _ _ _, _, _ => rfl
  | .group _ _ converted fields, v, h => by
    unfold Fits at h
    unfold restrictField
    split
    · rfl
    · next plain =>
      rw [if_neg plain] at h
      exact Field.mapGroups_eq_self (h.imp fun _ isRow => restrictRow_eq_self isRow)

end

/-! ### Fields by name -/

theorem value_recordOf (row : Row) (name : String) :
    (recordOf row).value name = ((row.lookup name).map Field.toValue).getD .null := by
  suffices (Field.toFields row).lookup name = (row.lookup name).map Field.toValue by
    rw [Record.value, Record.get?, recordOf, this]
  induction row with
  | nil => rfl
  | cons entry rest ih =>
    rw [Field.toFields, lookup_cons_eq, lookup_cons_eq, ih]
    split <;> rfl

theorem find?_cons_eq (field : FileType) (fields : List FileType) (name : String) :
    (field :: fields).find? (·.name == name) =
      if name = field.name then some field else fields.find? (·.name == name) := by
  rw [List.find?_cons]
  by_cases h : name = field.name
  · rw [if_pos h, beq_iff_eq.mpr h.symm]
  · rw [if_neg h, beq_eq_false_iff_ne.mpr (Ne.symm h)]

/-- A row has just the fields of its file, the first of a name where the file has the first. -/
theorem lookup_of_isRow {fields : List FileType} {row : Row} (h : IsRow fields row) (name : String) :
    match fields.find? (·.name == name) with
    | some field => ∃ v, row.lookup name = some v ∧ Fits field v
    | none => row.lookup name = none := by
  induction fields generalizing row with
  | nil =>
    cases h
    rfl
  | cons field rest ih =>
    obtain ⟨v, others, rfl, fits, isRow⟩ := h
    rw [find?_cons_eq, lookup_cons_eq]
    by_cases here : name = field.name
    · rw [if_pos here, if_pos here]
      exact ⟨v, rfl, fits⟩
    · rw [if_neg here, if_neg here]
      exact ih isRow

/-- Fields of different names are read independently of each other. -/
theorem lookup_restrictRow {fields : List FileType} (distinct : (fields.map (·.name)).Nodup)
    (row : Row) (name : String) : (restrictRow fields row).lookup name =
      (fields.find? (·.name == name)).bind fun field => (row.lookup name).map (restrictField field) := by
  induction fields generalizing row with
  | nil => rfl
  | cons field rest ih =>
    obtain ⟨new, distinct⟩ := List.nodup_cons.mp distinct
    rw [restrictRow, find?_cons_eq]
    by_cases here : name = field.name
    · have later : rest.find? (·.name == name) = none := by
        refine List.find?_eq_none.mpr fun other ho same => new ?_
        exact List.mem_map.mpr ⟨other, ho, (beq_iff_eq.mp same).trans here⟩
      rw [if_pos here, ← here]
      cases found : row.lookup name with
      | some v => simp only [lookup_cons_eq, if_true, Option.bind_some, Option.map_some]
      | none => rw [ih distinct, later, found]; rfl
    · -- The field read first is gone from the row, which other names do not see.
      rw [if_neg here]
      split
      · rw [lookup_cons_eq, if_neg here, ih distinct, lookup_eraseP_of_ne here]
      · exact ih distinct row

end RecordFlow.Parquet
