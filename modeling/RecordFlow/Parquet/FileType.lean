import RecordFlow.Error
import RecordFlow.Schema

/-! The schema of a columnar file, a tree of groups and leaves, and its projection onto the columns of
a schema. Plain groups are narrowed to the fields of the nested schema; lists and maps stay whole. -/

namespace RecordFlow.Parquet

inductive Repetition where
  | required
  | optional
  | repeated
  deriving DecidableEq, Repr

/-- How a leaf is stored. -/
inductive Physical where
  | boolean
  | int32
  | int64
  | int96
  | float
  | double
  | byteArray
  | fixedLenByteArray
  deriving DecidableEq, Repr

/-- What a leaf or group stands for. -/
inductive Converted where
  | none
  | utf8
  | map
  | mapKeyValue
  | list
  | enum
  | decimal
  | date
  | timeMillis
  | timeMicros
  | timestampMillis
  | timestampMicros
  | uint8
  | uint16
  | uint32
  | uint64
  | int8
  | int16
  | int32
  | int64
  | json
  | bson
  | interval
  deriving DecidableEq, Repr

namespace Repetition

def names : List (String × Repetition) :=
  [("required", .required), ("optional", .optional), ("repeated", .repeated)]

end Repetition

namespace Physical

def names : List (String × Physical) :=
  [("BOOLEAN", .boolean), ("INT32", .int32), ("INT64", .int64), ("INT96", .int96),
    ("FLOAT", .float), ("DOUBLE", .double), ("BYTE_ARRAY", .byteArray),
    ("FIXED_LEN_BYTE_ARRAY", .fixedLenByteArray)]

end Physical

namespace Converted

def names : List (String × Converted) :=
  [("NONE", .none), ("UTF8", .utf8), ("MAP", .map), ("MAP_KEY_VALUE", .mapKeyValue),
    ("LIST", .list), ("ENUM", .enum), ("DECIMAL", .decimal), ("DATE", .date),
    ("TIME_MILLIS", .timeMillis), ("TIME_MICROS", .timeMicros),
    ("TIMESTAMP_MILLIS", .timestampMillis), ("TIMESTAMP_MICROS", .timestampMicros),
    ("UINT_8", .uint8), ("UINT_16", .uint16), ("UINT_32", .uint32), ("UINT_64", .uint64),
    ("INT_8", .int8), ("INT_16", .int16), ("INT_32", .int32), ("INT_64", .int64),
    ("JSON", .json), ("BSON", .bson), ("INTERVAL", .interval)]

/-- Groups that stand for a list or a map. -/
def isCollection : Converted → Bool
  | .list | .map | .mapKeyValue => true
  | _ => false

end Converted

/-- Only the root of a file has no repetition. -/
inductive FileType where
  | leaf (name : String) (repetition : Option Repetition) (physical : Physical)
    (converted : Converted) (scale : Nat)
  | group (name : String) (repetition : Option Repetition) (converted : Converted)
    (fields : List FileType)

namespace FileType

def name : FileType → String
  | .leaf name _ _ _ _ => name
  | .group name _ _ _ => name

def repetition : FileType → Option Repetition
  | .leaf _ repetition _ _ _ => repetition
  | .group _ repetition _ _ => repetition

def fields : FileType → List FileType
  | .leaf _ _ _ _ _ => []
  | .group _ _ _ fields => fields

end FileType

/-- What a missing column is missing from. -/
def place : String := "Parquet file"

mutual

/-- The fields of a file for the columns of a schema, in the order of the columns. Only nullable
columns may be missing. -/
def projectFields (available : List FileType) (record : String) :
    List Column → Except ReadError (List FileType)
  | [] => .ok []
  | c :: cs =>
    match available.find? (·.name == c.name) with
    | some field => do
      let first ← projectColumn field c
      let rest ← projectFields available record cs
      return first :: rest
    | none =>
      if c.nullable then projectFields available record cs
      else .error (.missingColumn c.name record place)

/-- The part of a field that a column needs. -/
def projectColumn (field : FileType) : Column → Except ReadError FileType
  | ⟨_, _, _, none⟩ => .ok field
  | ⟨_, _, _, some ⟨record, columns⟩⟩ =>
    match field with
    | .group name repetition converted fields =>
      if converted.isCollection then .ok field
      else do return .group name repetition .none (← projectFields fields record columns)
    | .leaf _ _ _ _ _ => .ok field

end

def project (root : FileType) (schema : Schema) : Except ReadError FileType := do
  return .group root.name none .none (← projectFields root.fields schema.name schema.columns)

mutual

/-- Whether a projection is a part of a file: fields are found by name, the last of one name, and have
the same form. -/
def FileType.includes (whole : FileType) : FileType → Bool
  | .leaf name repetition physical _ _ =>
    match whole with
    | .leaf n r p _ _ => n == name && r == repetition && p == physical
    | .group _ _ _ _ => false
  | .group name repetition _ fields =>
    match whole with
    | .leaf _ _ _ _ _ => false
    | .group n r _ available =>
      n == name && r == repetition && includesAll available fields

def includesAll (available : List FileType) : List FileType → Bool
  | [] => true
  | field :: rest =>
    (match available.reverse.find? (·.name == field.name) with
      | some whole => whole.includes field
      | none => false) && includesAll available rest

end

end RecordFlow.Parquet
