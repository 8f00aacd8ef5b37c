import RecordFlow.Schema

/-! The record types at every depth of a record type, and the schemas at every depth of a schema. No
schema is part of its own columns, so schemas that agree by name are never nested in themselves. -/

namespace RecordFlow

mutual

/-- A record type and all that are nested in it. -/
def RecordType.parts : RecordType → List RecordType
  | ⟨name, fields⟩ => ⟨name, fields⟩ :: Field.partsAll fields

def DataType.parts : DataType → List RecordType
  | .struct type => type.parts
  | .list item => item.parts
  | .set item => item.parts
  | _ => []

def Field.partsAll : List Field → List RecordType
  | [] => []
  | ⟨_, type, _⟩ :: rest => type.parts ++ Field.partsAll rest

end

namespace DataType

/-- Whether values of the type have parts. -/
def isNested : DataType → Bool
  | .list _ | .set _ | .struct _ => true
  | _ => false

mutual

/-- Induction over a type and the types of its parts. -/
@[elab_as_elim]
theorem induction {motive : DataType → Prop}
    (flat : ∀ type, type.isNested = false → motive type)
    (list : ∀ item, motive item → motive (.list item))
    (set : ∀ item, motive item → motive (.set item))
    (struct : ∀ name fields, (∀ field ∈ fields, motive field.type) →
      motive (.struct ⟨name, fields⟩)) : ∀ type, motive type
  | .list item => list item (induction flat list set struct item)
  | .set item => set item (induction flat list set struct item)
  | .struct ⟨name, fields⟩ =>
    struct name fields (induction_fields flat list set struct fields)
  | .null | .boolean | .int32 | .int64 | .float32 | .float64 | .string | .binary => flat _ rfl

theorem induction_fields {motive : DataType → Prop}
    (flat : ∀ type, type.isNested = false → motive type)
    (list : ∀ item, motive item → motive (.list item))
    (set : ∀ item, motive item → motive (.set item))
    (struct : ∀ name fields, (∀ field ∈ fields, motive field.type) →
      motive (.struct ⟨name, fields⟩)) : ∀ fields : List Field, ∀ field ∈ fields, motive field.type
  | [] => nofun
  | ⟨_, type, _⟩ :: rest => List.forall_mem_cons.mpr
    ⟨induction flat list set struct type, induction_fields flat list set struct rest⟩

end

end DataType

theorem Field.mem_partsAll {fields : List Field} {t : RecordType} :
    t ∈ partsAll fields ↔ ∃ field ∈ fields, t ∈ field.type.parts := by
  induction fields with
  | nil => simp [partsAll]
  | cons field rest ih =>
    cases field
    simp [partsAll, ih]

theorem RecordType.mem_parts_of_field {type t : RecordType} {field : Field}
    (hfield : field ∈ type.fields) (ht : t ∈ field.type.parts) : t ∈ type.parts := by
  cases type
  exact List.mem_cons_of_mem _ (Field.mem_partsAll.mpr ⟨field, hfield, ht⟩)

mutual

/-- A schema and all that are nested in it. -/
def Schema.parts : Schema → List Schema
  | ⟨name, columns⟩ => ⟨name, columns⟩ :: Column.partsAll columns

/-- The schemas nested in columns, at any depth. -/
def Column.partsAll : List Column → List Schema
  | [] => []
  | ⟨_, _, _, none⟩ :: rest => Column.partsAll rest
  | ⟨_, _, _, some nested⟩ :: rest => nested.parts ++ Column.partsAll rest

end

/-- Induction over columns and the columns nested in them. -/
@[elab_as_elim]
theorem Column.induction {motive : List Column → Prop} (nil : motive [])
    (flat : ∀ name type nullable rest, motive rest → motive (⟨name, type, nullable, none⟩ :: rest))
    (nested : ∀ name type nullable record inner rest, motive inner → motive rest →
      motive (⟨name, type, nullable, some ⟨record, inner⟩⟩ :: rest)) : ∀ columns, motive columns
  | [] => nil
  | ⟨name, type, nullable, none⟩ :: rest =>
    flat name type nullable rest (Column.induction nil flat nested rest)
  | ⟨name, type, nullable, some ⟨record, inner⟩⟩ :: rest =>
    nested name type nullable record inner rest (Column.induction nil flat nested inner)
      (Column.induction nil flat nested rest)

namespace Column

@[simp] theorem partsAll_nil : partsAll [] = [] := rfl

@[simp] theorem partsAll_flat (name : String) (type : DataType) (nullable : Bool)
    (rest : List Column) : partsAll (⟨name, type, nullable, none⟩ :: rest) = partsAll rest := rfl

@[simp] theorem partsAll_nested (name : String) (type : DataType) (nullable : Bool)
    (record : String) (inner rest : List Column) :
    partsAll (⟨name, type, nullable, some ⟨record, inner⟩⟩ :: rest) =
      ⟨record, inner⟩ :: (partsAll inner ++ partsAll rest) := rfl

theorem partsAll_append (cs ds : List Column) :
    partsAll (cs ++ ds) = partsAll cs ++ partsAll ds := by
  induction cs with
  | nil => rfl
  | cons c rest ih =>
    obtain ⟨name, type, nullable, nested⟩ := c
    cases nested with
    | none => exact ih
    | some nested =>
      rw [List.cons_append]
      simp only [partsAll, ih, List.append_assoc]

/-- What is nested in one column is nested in the columns. -/
theorem mem_partsAll {cs : List Column} {t : Schema} :
    t ∈ partsAll cs ↔ ∃ c ∈ cs, t ∈ partsAll [c] := by
  induction cs with
  | nil => simp
  | cons c rest ih =>
    have : c :: rest = [c] ++ rest := rfl
    rw [this, partsAll_append, List.mem_append, ih]
    simp

/-- The parts of a nested schema are parts of the columns. -/
theorem partsAll_trans {cs : List Column} {s t : Schema} (hs : s ∈ partsAll cs)
    (ht : t ∈ partsAll s.columns) : t ∈ partsAll cs := by
  induction cs using Column.induction with
  | nil => cases hs
  | flat name type nullable rest ih => exact ih hs
  | nested name type nullable record inner rest ihInner ihRest =>
    rw [partsAll_nested, List.mem_cons, List.mem_append] at hs ⊢
    rcases hs with rfl | hs | hs
    · exact .inr (.inl ht)
    · exact .inr (.inl (ihInner hs))
    · exact .inr (.inr (ihRest hs))

theorem sizeOf_lt_of_mem_partsAll {cs : List Column} {t : Schema} (h : t ∈ partsAll cs) :
    sizeOf t < sizeOf cs := by
  induction cs using Column.induction with
  | nil => cases h
  | flat name type nullable rest ih =>
    have := ih h
    simp only [List.cons.sizeOf_spec]
    omega
  | nested name type nullable record inner rest ihInner ihRest =>
    rw [partsAll_nested, List.mem_cons, List.mem_append] at h
    simp only [List.cons.sizeOf_spec, Column.mk.sizeOf_spec, Option.some.sizeOf_spec,
      Schema.mk.sizeOf_spec]
    rcases h with rfl | h | h
    · simp only [Schema.mk.sizeOf_spec]
      omega
    · have := ihInner h
      omega
    · have := ihRest h
      omega

end Column

namespace Schema

theorem mem_parts {s t : Schema} : t ∈ s.parts ↔ t = s ∨ t ∈ Column.partsAll s.columns := by
  cases s
  exact List.mem_cons

/-- Schemas that come with all that is nested in them, one for each name, each with columns of
different names. -/
structure Catalog (schemas : List Schema) : Prop where
  closed : ∀ s ∈ schemas, ∀ t ∈ Column.partsAll s.columns, t ∈ schemas
  coherent : ∀ s ∈ schemas, ∀ t ∈ schemas, s.name = t.name → s = t
  distinct : ∀ s ∈ schemas, s.names.Nodup

variable {schemas : List Schema}

theorem Catalog.nested_ne (h : Catalog schemas) {s t : Schema} (hs : s ∈ schemas)
    (ht : t ∈ Column.partsAll s.columns) : t.name ≠ s.name := by
  intro he
  have same := h.coherent t (h.closed s hs t ht) s hs he
  have smaller := Column.sizeOf_lt_of_mem_partsAll ht
  subst same
  cases t
  simp only [Schema.mk.sizeOf_spec] at smaller
  omega

theorem Catalog.distinct_parts (h : Catalog schemas) {s : Schema} (hs : s ∈ schemas) :
    ∀ t ∈ s.parts, t.names.Nodup := by
  intro t ht
  rcases mem_parts.mp ht with rfl | ht
  · exact h.distinct t hs
  · exact h.distinct t (h.closed s hs t ht)

end Schema

/-! ### Schemas of record types -/

mutual

theorem RecordType.parts_schema : ∀ type : RecordType,
    type.schema.parts = type.parts.map RecordType.schema
  | ⟨name, fields⟩ => by
    simp only [RecordType.schema, Schema.parts, RecordType.parts, List.map_cons,
      Field.partsAll_columns fields]

theorem DataType.parts_schema? : ∀ type : DataType,
    (type.schema?.elim [] Schema.parts) = type.parts.map RecordType.schema
  | .struct type => RecordType.parts_schema type
  | .list item => DataType.parts_schema? item
  | .set item => DataType.parts_schema? item
  | .null | .boolean | .int32 | .int64 | .float32 | .float64 | .string | .binary => rfl

theorem Field.partsAll_columns : ∀ fields : List Field,
    Column.partsAll (Field.columns fields) = (Field.partsAll fields).map RecordType.schema
  | [] => rfl
  | ⟨name, type, nullable⟩ :: rest => by
    have here := DataType.parts_schema? type
    have later := Field.partsAll_columns rest
    simp only [Field.columns, Field.partsAll, List.map_append]
    rw [← here, ← later]
    cases type.schema? <;> rfl

end

theorem Field.columns_eq (fields : List Field) : Field.columns fields =
    fields.map fun field => ⟨field.name, field.type, field.nullable, field.type.schema?⟩ := by
  induction fields with
  | nil => rfl
  | cons field rest ih =>
    cases field
    rw [Field.columns, ih, List.map_cons]

theorem Field.columns_names (fields : List Field) :
    (Field.columns fields).map (·.name) = fields.map (·.name) := by
  rw [columns_eq, List.map_map]
  rfl

@[simp] theorem RecordType.schema_name (type : RecordType) : type.schema.name = type.name := by
  cases type
  rfl

theorem RecordType.schema_names (type : RecordType) : type.schema.names = type.fieldNames := by
  cases type
  exact Field.columns_names _

end RecordFlow
