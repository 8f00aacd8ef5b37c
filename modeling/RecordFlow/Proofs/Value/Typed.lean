import RecordFlow.Proofs.Evaluation
import RecordFlow.Proofs.Schema.Derivation
import RecordFlow.Proofs.Schema.Restrict
import RecordFlow.Proofs.Value.Json

/-! Values of a type, at every depth. JSON becomes a value by its own kinds, whatever the type asks
for, and shaping puts declared fields in place without a look at what they hold. Main statement: what
JSON becomes, shaped by a type, is of that type just if the JSON is. -/

namespace RecordFlow

mutual

/-- Whether a value is of a type at every depth. Null is of every type. -/
def Value.Inhabits : Value → DataType → Prop
  | .null, _ => True
  | .bool _, .boolean => True
  | .int n, .int32 => Int32.minValue.toInt ≤ n.toInt ∧ n.toInt ≤ Int32.maxValue.toInt
  | .int _, .int64 => True
  | .float _, .float32 | .float _, .float64 => True
  | .text _, .string => True
  | .bytes _, .binary => True
  | .list items, .list item | .list items, .set item => ∀ v ∈ items, v.Inhabits item
  | .record r, .struct type => r.Inhabits type
  | _, _ => False

/-- All fields of the record are declared, and hold values of their declared types. -/
def Record.Inhabits : Record → RecordType → Prop
  | r, ⟨_, fields⟩ => (∀ x ∈ r.names, x ∈ fields.map (·.name)) ∧ r.InhabitsAll fields

def Record.InhabitsAll : Record → List Field → Prop
  | _, [] => True
  | r, ⟨name, type, _⟩ :: rest =>
    (∀ v, (name, v) ∈ r.fields → v.Inhabits type) ∧ r.InhabitsAll rest

end

mutual

/-- Whether JSON is written as a type asks at every depth: whole numbers in range for integers, and
for floats numbers that are not whole or do not fit in 64 bits with a sign. Null is of every type,
nothing else is of binary type, and members that are not declared do not count. -/
def Json.Inhabits : Json → DataType → Prop
  | .null, _ => True
  | .bool _, .boolean => True
  | .int n, .int32 => Int32.minValue.toInt ≤ n ∧ n ≤ Int32.maxValue.toInt
  | .int n, .int64 => Whole.Within n
  | .int n, .float32 | .int n, .float64 => ¬ Whole.Within n
  | .float _, .float32 | .float _, .float64 => True
  | .text _, .string => True
  | .list items, .list item | .list items, .set item => ∀ j ∈ items, j.Inhabits item
  | .object members, .struct ⟨_, fields⟩ => Json.InhabitAll members fields
  | _, _ => False

def Json.InhabitAll : List (String × Json) → List Field → Prop
  | _, [] => True
  | members, ⟨name, type, _⟩ :: rest =>
    (∀ j, members.lookup name = some j → j.Inhabits type) ∧ Json.InhabitAll members rest

end

@[simp] theorem Value.null_inhabits (type : DataType) : Value.null.Inhabits type := by
  simp [Inhabits]

theorem Record.inhabitsAll_iff {r : Record} {fields : List Field} : r.InhabitsAll fields ↔
    ∀ field ∈ fields, ∀ v, (field.name, v) ∈ r.fields → v.Inhabits field.type := by
  induction fields with
  | nil => simp [InhabitsAll]
  | cons field rest ih =>
    cases field
    rw [InhabitsAll, ih, List.forall_mem_cons]

theorem Json.inhabitAll_iff {members : List (String × Json)} {fields : List Field} :
    InhabitAll members fields ↔
      ∀ field ∈ fields, ∀ j, members.lookup field.name = some j → j.Inhabits field.type := by
  induction fields with
  | nil => simp [InhabitAll]
  | cons field rest ih =>
    cases field
    rw [InhabitAll, ih, List.forall_mem_cons]

theorem Value.inhabits_set (v : Value) (item : DataType) :
    v.Inhabits (.set item) ↔ v.Inhabits (.list item) := by
  cases v <;> rfl

theorem Json.inhabits_set (j : Json) (item : DataType) :
    j.Inhabits (.set item) ↔ j.Inhabits (.list item) := by
  cases j <;> rfl

namespace DataType

/-- Shapes the records in a value as a column of the type does. -/
def shape (type : DataType) (v : Value) : Value :=
  match type.schema? with
  | some nested => v.mapRecords nested.conform
  | none => v

end DataType

/-! ### Shaped values -/

/-- A column that comes from a field shapes by the type of the field. -/
theorem Column.conform_eq_shape (name : String) (type : DataType) (nullable : Bool) (v : Value) :
    Column.conform ⟨name, type, nullable, type.schema?⟩ v = type.shape v := by
  unfold DataType.shape
  cases type.schema? <;> rfl

/-- The columns that come from the fields of a checked record type. -/
theorem Schema.column_of_ofRecordType {type : RecordType} {s : Schema}
    (derived : ofRecordType type = .ok s) {c : Column} (hc : c ∈ s.columns) :
    (∀ v, c.conform v = c.type.shape v) ∧ ∀ t ∈ c.type.parts, t.fieldNames.Nodup := by
  obtain ⟨_, checked, h⟩ := exists_of_bind_ok derived
  cases h
  obtain ⟨name, fields⟩ := type
  rw [RecordType.schema, Field.columns_eq] at hc
  obtain ⟨field, hfield, rfl⟩ := List.mem_map.mp hc
  refine ⟨Column.conform_eq_shape _ _ _, ?_⟩
  intro t ht
  exact RecordType.check_distinct _ checked t (RecordType.mem_parts_of_field hfield ht)

theorem RecordType.conform_schema (name : String) (fields : List Field) (r : Record) :
    (RecordType.mk name fields).schema.conform r =
      ⟨fields.map fun field => (field.name, field.type.shape (r.value field.name))⟩ := by
  simp only [RecordType.schema, Schema.conform_eq, Field.columns_eq, List.map_map,
    Function.comp_def, Column.conform_eq_shape]

namespace DataType

theorem shape_flat {type : DataType} (flat : type.isNested = false) (v : Value) :
    type.shape v = v := by
  cases type <;> first | rfl | cases flat

theorem shape_null (type : DataType) : type.shape .null = .null := by
  unfold shape
  cases type.schema? <;> rfl

theorem shape_list (type : DataType) (vs : List Value) :
    type.shape (.list vs) = .list (vs.map type.shape) := by
  unfold shape
  cases type.schema? with
  | none => simp
  | some nested => exact congrArg Value.list (Value.mapRecordsAll_eq _ vs)

end DataType

/-! ### Records of a type -/

/-- A record with a value for each field of a type. -/
theorem Record.inhabits_map {name : String} {fields : List Field}
    (distinct : (fields.map (·.name)).Nodup) (value : Field → Value) :
    (Record.mk (fields.map fun field => (field.name, value field))).Inhabits ⟨name, fields⟩ ↔
      ∀ field ∈ fields, (value field).Inhabits field.type := by
  rw [Inhabits, inhabitsAll_iff]
  constructor
  · intro typed field hfield
    exact typed.2 field hfield _ (List.mem_map_of_mem hfield)
  · intro typed
    refine ⟨by simp [names], ?_⟩
    intro field hfield v hv
    have distinct : ((fields.map fun field => (field.name, value field)).map (·.1)).Nodup := by
      rwa [List.map_map]
    have here := lookup_of_mem distinct hv
    rw [lookup_of_mem distinct (List.mem_map_of_mem hfield)] at here
    cases here
    exact typed field hfield

theorem Field.defaults_eq (fields : List Field) : Field.defaults fields =
    fields.map fun field =>
      (field.name, if field.nullable then .null else field.type.default) := by
  induction fields with
  | nil => rfl
  | cons field rest ih =>
    cases field
    rw [Field.defaults, ih, List.map_cons]

/-- The default of a type is of the type. -/
theorem DataType.default_inhabits {type : DataType}
    (distinct : ∀ t ∈ type.parts, t.fieldNames.Nodup) : type.default.Inhabits type := by
  induction type using DataType.induction with
  | flat type flat =>
    cases type with
    | int32 => exact ⟨by decide, by decide⟩
    | list _ | set _ | struct _ => cases flat
    | _ => trivial
  | list item ih => exact nofun
  | set item ih => exact nofun
  | struct name fields ih =>
    rw [DataType.default, RecordType.default, Value.Inhabits, Field.defaults_eq,
      Record.inhabits_map (distinct _ List.mem_cons_self)]
    intro field hfield
    split
    · exact Value.null_inhabits _
    · exact ih field hfield fun t ht => distinct t (RecordType.mem_parts_of_field hfield ht)

/-! ### JSON of a type -/

theorem Json.lookup_toFields (members : List (String × Json)) (name : String) :
    (toFields members).lookup name = (members.lookup name).map toValue := by
  induction members with
  | nil => rfl
  | cons member rest ih =>
    obtain ⟨key, item⟩ := member
    rw [toFields, lookup_cons_eq, lookup_cons_eq, ih]
    split <;> rfl

theorem Json.inhabits_flat {type : DataType} (flat : type.isNested = false) (j : Json) :
    j.toValue.Inhabits type ↔ j.Inhabits type := by
  cases j with
  | int n =>
    rw [toValue]
    by_cases h : Whole.Within n
    · obtain ⟨k, whole, rfl⟩ := Whole.exists_of_within h
      rw [whole]
      cases type <;> simp_all [Value.Inhabits, Inhabits]
    · rw [Whole.ofInt?_eq_none_iff.mpr h]
      cases type with
      | int32 => exact iff_of_false id fun small => h (Whole.within_of_int32 small)
      | _ => simp_all [Value.Inhabits, Inhabits]
  | _ => cases type <;> first | rfl | cases flat

theorem Json.inhabits_list {item : DataType}
    (ih : ∀ j : Json, (item.shape j.toValue).Inhabits item ↔ j.Inhabits item) (j : Json) :
    ((DataType.list item).shape j.toValue).Inhabits (.list item) ↔ j.Inhabits (.list item) := by
  cases j with
  | list items =>
    rw [toValue, DataType.shape_list]
    simp only [Value.Inhabits, Inhabits, toValues_eq, List.forall_mem_map]
    exact forall₂_congr fun j _ => ih j
  | int n =>
    simp only [toValue, DataType.shape]
    cases Whole.ofInt? n <;> cases DataType.schema? _ <;> rfl
  | _ =>
    simp only [toValue, DataType.shape]
    cases DataType.schema? _ <;> rfl

theorem Json.inhabits_struct {name : String} {fields : List Field}
    (distinct : (fields.map (·.name)).Nodup)
    (ih : ∀ field ∈ fields, ∀ j : Json,
      (field.type.shape j.toValue).Inhabits field.type ↔ j.Inhabits field.type) (j : Json) :
    ((DataType.struct ⟨name, fields⟩).shape j.toValue).Inhabits (.struct ⟨name, fields⟩) ↔
      j.Inhabits (.struct ⟨name, fields⟩) := by
  cases j with
  | object members =>
    show (Value.record ((RecordType.mk name fields).schema.conform ⟨toFields members⟩)).Inhabits
      (.struct ⟨name, fields⟩) ↔ InhabitAll members fields
    rw [Value.Inhabits, RecordType.conform_schema, Record.inhabits_map distinct, inhabitAll_iff]
    apply forall₂_congr
    intro field hfield
    -- A member that is missing is null, which is of every type.
    rw [Record.value, Record.get?, lookup_toFields]
    cases members.lookup field.name with
    | none => simp [DataType.shape_null]
    | some j => simp [ih field hfield j]
  | int n =>
    rw [toValue]
    cases Whole.ofInt? n <;> rfl
  | _ => rfl

/-- What JSON becomes, shaped by a type, is of that type at every depth just if the JSON is. -/
theorem Json.inhabits_shape {type : DataType} (distinct : ∀ t ∈ type.parts, t.fieldNames.Nodup)
    (j : Json) : (type.shape j.toValue).Inhabits type ↔ j.Inhabits type := by
  induction type using DataType.induction generalizing j with
  | flat type flat => rw [DataType.shape_flat flat, inhabits_flat flat]
  | list item ih => exact inhabits_list (fun j => ih distinct j) j
  | set item ih =>
    rw [Value.inhabits_set, inhabits_set]
    exact inhabits_list (fun j => ih distinct j) j
  | struct name fields ih =>
    apply inhabits_struct (distinct _ List.mem_cons_self)
    intro field hfield
    exact ih field hfield fun t ht => distinct t (RecordType.mem_parts_of_field hfield ht)

end RecordFlow
