import Mathlib.Data.List.Forall2
import RecordFlow.Proofs.Schema.Derivation
import RecordFlow.Proofs.Schema.Prunes

/-! How deep records are nested in a type, and what a schema with columns deleted shows of a record
type. Record types that agree by name are never nested in themselves, as a part of a record type is
less deep than the whole. -/

namespace RecordFlow

mutual

/-- The number of records in one another, the outermost included. -/
def RecordType.depth : RecordType → Nat
  | ⟨_, fields⟩ => Field.depthAll fields + 1

def DataType.depth : DataType → Nat
  | .struct type => type.depth
  | .list item => item.depth
  | .set item => item.depth
  | _ => 0

def Field.depthAll : List Field → Nat
  | [] => 0
  | ⟨_, type, _⟩ :: rest => max type.depth (Field.depthAll rest)

end

theorem DataType.depth_eq (type : DataType) : type.depth = type.record?.elim 0 RecordType.depth := by
  fun_induction DataType.record? type <;> simp_all [DataType.depth]

theorem Field.depth_le_depthAll {fields : List Field} {field : Field} (h : field ∈ fields) :
    field.type.depth ≤ depthAll fields := by
  induction fields with
  | nil => cases h
  | cons first rest ih =>
    cases first
    rw [depthAll]
    rcases List.mem_cons.mp h with rfl | h
    · exact Nat.le_max_left ..
    · exact Nat.le_trans (ih h) (Nat.le_max_right ..)

namespace RecordType

variable {type inner : RecordType} {field : Field} {types : List RecordType}

theorem depth_pos (type : RecordType) : 0 < type.depth := by
  cases type
  exact Nat.succ_pos _

theorem depth_field_lt (h : field ∈ type.fields) : field.type.depth < type.depth := by
  cases type
  exact Nat.lt_succ_of_le (Field.depth_le_depthAll h)

theorem depth_lt_of_field (h : field ∈ type.fields) (reached : field.type.record? = some inner) :
    inner.depth < type.depth := by
  have := depth_field_lt h
  rwa [DataType.depth_eq, reached] at this

theorem depth_le_of_mem_parts (h : inner ∈ type.parts) : inner.depth ≤ type.depth := by
  induction type using RecordType.induction with
  | step type ih =>
    rcases mem_parts.mp h with rfl | ⟨field, hfield, middle, reached, h⟩
    · exact Nat.le_refl _
    · exact Nat.le_of_lt
        (Nat.lt_of_le_of_lt (ih field hfield middle reached h) (depth_lt_of_field hfield reached))

/-- Record types that come with all that are nested in them, one for each name. -/
structure Family (types : List RecordType) : Prop where
  closed : ∀ type ∈ types, ∀ inner ∈ type.parts, inner ∈ types
  coherent : ∀ a ∈ types, ∀ b ∈ types, a.name = b.name → a = b

theorem Family.reached (h : Family types) (htype : type ∈ types) (hfield : field ∈ type.fields)
    (reached : field.type.record? = some inner) : inner ∈ types :=
  h.closed type htype inner
    (mem_parts.mpr (.inr ⟨field, hfield, inner, reached, mem_parts.mpr (.inl rfl)⟩))

/-- No name recurs below itself. -/
theorem Family.nested_ne (h : Family types) (htype : type ∈ types) (hfield : field ∈ type.fields)
    (hinner : inner ∈ field.type.parts) : inner.name ≠ type.name := by
  intro same
  have part : inner ∈ type.parts := mem_parts_of_field hfield hinner
  obtain rfl := h.coherent inner (h.closed type htype inner part) type htype same
  rw [DataType.parts_eq] at hinner
  cases reached : field.type.record? with
  | none => simp [reached] at hinner
  | some middle =>
    rw [reached] at hinner
    have below := depth_lt_of_field hfield reached
    have above := depth_le_of_mem_parts hinner
    omega

end RecordType

/-! ### What is left of a record type -/

/-- A column shows a field, and of the record that its type reaches what is left of the derived
schema. -/
inductive Column.Shows : Column → Field → Prop
  | flat {field : Field} (reached : field.type.record? = none) :
      Shows ⟨field.name, field.type, field.nullable, none⟩ field
  | record {field : Field} {inner : RecordType} {columns : List Column}
      (reached : field.type.record? = some inner)
      (left : inner.schema.Prunes ⟨inner.name, columns⟩) :
      Shows ⟨field.name, field.type, field.nullable, some ⟨inner.name, columns⟩⟩ field

theorem Column.Shows.type_eq {c : Column} {field : Field} (h : c.Shows field) :
    c.type = field.type := by
  cases h <;> rfl

theorem Column.prunes_nil (cs : List Column) : Prunes cs [] := by
  induction cs with
  | nil => exact .nil
  | cons c rest ih => exact .delete ih

theorem Field.columns_cons (field : Field) (rest : List Field) :
    columns (field :: rest) = ⟨field.name, field.type, field.nullable,
      field.type.record?.map RecordType.schema⟩ :: columns rest := by
  rw [columns_eq, columns_eq, List.map_cons, DataType.schema?_eq]

/-- Of the columns of fields those are left that show some of the fields in their order. -/
theorem Field.prunes_columns_iff {fields : List Field} {cs : List Column} :
    Column.Prunes (columns fields) cs ↔ List.SublistForall₂ Column.Shows cs fields := by
  constructor
  · intro h
    induction fields generalizing cs with
    | nil =>
      cases h
      exact .nil
    | cons field rest ih =>
      rw [columns_cons] at h
      generalize derived : field.type.record?.map RecordType.schema = nested at h
      cases h with
      | delete later => exact .cons_right (ih later)
      | flat later => exact .cons (.flat (Option.map_eq_none_iff.mp derived)) (ih later)
      | nested inside later =>
        obtain ⟨⟨record, fields⟩, reached, same⟩ := Option.map_eq_some_iff.mp derived
        obtain ⟨rfl, rfl⟩ := Schema.mk.inj same
        exact .cons (.record reached ⟨rfl, inside⟩) (ih later)
  · intro h
    induction h with
    | nil => exact Column.prunes_nil _
    | cons shows _ ih =>
      rw [columns_cons]
      cases shows with
      | flat reached =>
        rw [reached]
        exact .flat ih
      | @record _ inner _ reached left =>
        obtain ⟨_, fields⟩ := inner
        rw [reached]
        exact .nested left.2 ih
    | cons_right _ ih =>
      rw [columns_cons]
      exact .delete ih

namespace RecordType

variable {type : RecordType} {s : Schema}

/-- What is left of the schema of a record type shows some of its fields in their order. -/
theorem prunes_iff : type.schema.Prunes s ↔
    s.name = type.name ∧ List.SublistForall₂ Column.Shows s.columns type.fields := by
  cases type
  rw [Schema.Prunes, ← Field.prunes_columns_iff]
  rfl

theorem prunes_schema (type : RecordType) : type.schema.Prunes type.schema := by
  have whole := Schema.prunes_prune (fun _ => true) .all type.schema
  rwa [Schema.prune_all] at whole

theorem exists_field_of_prunes (h : type.schema.Prunes s) :
    ∀ c ∈ s.columns, ∃ field ∈ type.fields, c.Shows field := by
  have shows := (prunes_iff.mp h).2
  generalize s.columns = cs, type.fields = fields at shows
  induction shows with
  | nil => simp
  | cons here _ ih =>
    refine List.forall_mem_cons.mpr ⟨⟨_, List.mem_cons_self .., here⟩, fun c hc => ?_⟩
    obtain ⟨field, hfield, shows⟩ := ih c hc
    exact ⟨field, List.mem_cons_of_mem _ hfield, shows⟩
  | cons_right _ ih =>
    intro c hc
    obtain ⟨field, hfield, shows⟩ := ih c hc
    exact ⟨field, List.mem_cons_of_mem _ hfield, shows⟩

/-- Columns may be changed as long as they show the same fields. -/
theorem prunes_map {f : Column → Column} (h : type.schema.Prunes s)
    (shows : ∀ field ∈ type.fields, ∀ c, c.Shows field → (f c).Shows field) :
    type.schema.Prunes { s with columns := s.columns.map f } := by
  obtain ⟨name, columns⟩ := prunes_iff.mp h
  refine prunes_iff.mpr ⟨name, ?_⟩
  change List.SublistForall₂ _ (s.columns.map f) type.fields
  generalize s.columns = cs, type.fields = fields at columns shows ⊢
  induction columns with
  | nil => exact .nil
  | cons here _ ih =>
    obtain ⟨first, later⟩ := List.forall_mem_cons.mp shows
    exact .cons (first _ here) (ih later)
  | cons_right _ ih => exact .cons_right (ih (List.forall_mem_cons.mp shows).2)

theorem prunes_retain (h : type.schema.Prunes s) (names : List String) :
    type.schema.Prunes (s.retain names) := by
  obtain ⟨name, columns⟩ := prunes_iff.mp h
  refine prunes_iff.mpr ⟨name, ?_⟩
  change List.SublistForall₂ _ (s.columns.filter _) type.fields
  generalize s.columns = cs, type.fields = fields at columns ⊢
  induction columns with
  | nil => exact .nil
  | @cons c field _ _ here _ ih =>
    rw [List.filter_cons]
    split
    · exact .cons here ih
    · exact .cons_right ih
  | cons_right _ ih => exact .cons_right ih

end RecordType

end RecordFlow
