import RecordFlow.Json

/-! The types of values. A record type has a name and an ordered list of fields; types are compared
by structure, their names included. -/

namespace RecordFlow

mutual

inductive DataType where
  | null
  | boolean
  | int32
  | int64
  | float32
  | float64
  | string
  | binary
  | list (item : DataType)
  | set (item : DataType)
  | struct (type : RecordType)

structure RecordType where
  name : String
  fields : List Field

structure Field where
  name : String
  type : DataType
  nullable : Bool

end

namespace DataType

/-- The record type at the bottom of lists and sets. -/
def record? : DataType → Option RecordType
  | .struct type => some type
  | .list item => item.record?
  | .set item => item.record?
  | _ => none

def text : DataType → String
  | .null => "Null"
  | .boolean => "Boolean"
  | .int32 => "Int32"
  | .int64 => "Int64"
  | .float32 => "Float32"
  | .float64 => "Float64"
  | .string => "String"
  | .binary => "Binary"
  | .list item => "List(" ++ item.text ++ ")"
  | .set item => "Set(" ++ item.text ++ ")"
  | .struct type => "Struct(" ++ type.name ++ ")"

end DataType

/-! ### Equality -/

mutual

def DataType.same : DataType → DataType → Bool
  | .null, .null => true
  | .boolean, .boolean => true
  | .int32, .int32 => true
  | .int64, .int64 => true
  | .float32, .float32 => true
  | .float64, .float64 => true
  | .string, .string => true
  | .binary, .binary => true
  | .list a, .list b => a.same b
  | .set a, .set b => a.same b
  | .struct a, .struct b => a.same b
  | _, _ => false

def RecordType.same : RecordType → RecordType → Bool
  | ⟨m, fs⟩, ⟨n, gs⟩ => m == n && Field.sameAll fs gs

def Field.sameAll : List Field → List Field → Bool
  | [], [] => true
  | ⟨m, s, x⟩ :: fs, ⟨n, t, y⟩ :: gs => m == n && s.same t && x == y && Field.sameAll fs gs
  | _, _ => false

end

mutual

theorem DataType.same_iff : ∀ (a b : DataType), a.same b = true ↔ a = b
  | a, b => by
    cases a <;> cases b <;> simp only [DataType.same, reduceCtorEq, Bool.false_eq_true,
      DataType.list.injEq, DataType.set.injEq, DataType.struct.injEq]
    · exact DataType.same_iff _ _
    · exact DataType.same_iff _ _
    · exact RecordType.same_iff _ _

theorem RecordType.same_iff : ∀ (a b : RecordType), a.same b = true ↔ a = b
  | ⟨m, fs⟩, ⟨n, gs⟩ => by
    simp [RecordType.same, Field.sameAll_iff fs gs]

theorem Field.sameAll_iff : ∀ (fs gs : List Field), Field.sameAll fs gs = true ↔ fs = gs
  | [], [] => by simp [Field.sameAll]
  | [], _ :: _ => by simp [Field.sameAll]
  | _ :: _, [] => by simp [Field.sameAll]
  | ⟨m, s, x⟩ :: fs, ⟨n, t, y⟩ :: gs => by
    simp [Field.sameAll, DataType.same_iff s t, Field.sameAll_iff fs gs, and_assoc]

end

instance : DecidableEq DataType := fun _ _ => decidable_of_iff _ (DataType.same_iff _ _)

instance : DecidableEq RecordType := fun _ _ => decidable_of_iff _ (RecordType.same_iff _ _)

/-! ### Record types -/

namespace RecordType

def fieldNames (type : RecordType) : List String := type.fields.map (·.name)

def text (type : RecordType) : String :=
  type.name ++ "\x7b" ++
    ", ".intercalate (type.fields.map fun field => field.name ++ ": " ++ field.type.text) ++ "\x7d"

end RecordType

def Field.text (field : Field) : String :=
  field.name ++ ": " ++ field.type.text ++ if field.nullable then " (nullable)" else ""

/-! ### Serialized form -/

mutual

def DataType.toJson : DataType → Json
  | .list item => .ofMembers [("List", item.toJson)]
  | .set item => .ofMembers [("Set", item.toJson)]
  | .struct type => .ofMembers [("Struct", type.toJson)]
  | .null => .text "Null"
  | .boolean => .text "Boolean"
  | .int32 => .text "Int32"
  | .int64 => .text "Int64"
  | .float32 => .text "Float32"
  | .float64 => .text "Float64"
  | .string => .text "String"
  | .binary => .text "Binary"

def RecordType.toJson : RecordType → Json
  | ⟨name, fields⟩ => .ofMembers [("name", .text name), ("fields", .list (Field.toJsonAll fields))]

def Field.toJsonAll : List Field → List Json
  | [] => []
  | ⟨name, type, nullable⟩ :: rest =>
    .ofMembers [("name", .text name), ("data_type", type.toJson), ("nullable", .bool nullable)] ::
      Field.toJsonAll rest

end

end RecordFlow
