import RecordFlow.Double
import RecordFlow.DataType

/-! Values and records. A record is an ordered list of named values; building one from a list keeps
repeated names, of which only the first is ever found. Equality is structural, floats by their
bits, so that values serve as grouping and join keys. -/

namespace RecordFlow

mutual

inductive Value where
  | null
  | bool (b : Bool)
  | int (n : Int64)
  | float (x : Double)
  | text (s : String)
  | bytes (b : List UInt8)
  | list (items : List Value)
  | record (r : Record)

structure Record where
  fields : List (String × Value)

end

/-! ### Equality -/

mutual

def Value.same : Value → Value → Bool
  | .null, .null => true
  | .bool a, .bool b => a == b
  | .int a, .int b => a == b
  | .float a, .float b => a == b
  | .text a, .text b => a == b
  | .bytes a, .bytes b => a == b
  | .list a, .list b => Value.sameAll a b
  | .record ⟨a⟩, .record ⟨b⟩ => Record.sameFields a b
  | _, _ => false

def Value.sameAll : List Value → List Value → Bool
  | [], [] => true
  | v :: vs, w :: ws => v.same w && Value.sameAll vs ws
  | _, _ => false

def Record.sameFields : List (String × Value) → List (String × Value) → Bool
  | [], [] => true
  | (m, v) :: vs, (n, w) :: ws => m == n && v.same w && Record.sameFields vs ws
  | _, _ => false

end

mutual

theorem Value.same_iff : ∀ (v w : Value), v.same w = true ↔ v = w
  | .list a, w => by
    cases w <;> simp [Value.same, Value.sameAll_iff a _]
  | .record ⟨a⟩, w => by
    cases w with
    | record r => cases r; simp [Value.same, Record.sameFields_iff a _]
    | _ => simp [Value.same]
  | .null, w => by cases w <;> simp [Value.same]
  | .bool a, w => by cases w <;> simp [Value.same]
  | .int a, w => by cases w <;> simp [Value.same]
  | .float a, w => by cases w <;> simp [Value.same]
  | .text a, w => by cases w <;> simp [Value.same]
  | .bytes a, w => by cases w <;> simp [Value.same]

theorem Value.sameAll_iff : ∀ (vs ws : List Value), Value.sameAll vs ws = true ↔ vs = ws
  | [], [] => by simp [Value.sameAll]
  | [], _ :: _ => by simp [Value.sameAll]
  | _ :: _, [] => by simp [Value.sameAll]
  | v :: vs, w :: ws => by
    simp [Value.sameAll, Value.same_iff v w, Value.sameAll_iff vs ws]

theorem Record.sameFields_iff :
    ∀ (fs gs : List (String × Value)), Record.sameFields fs gs = true ↔ fs = gs
  | [], [] => by simp [Record.sameFields]
  | [], _ :: _ => by simp [Record.sameFields]
  | _ :: _, [] => by simp [Record.sameFields]
  | (m, v) :: fs, (n, w) :: gs => by
    simp [Record.sameFields, Value.same_iff v w, Record.sameFields_iff fs gs]

end

instance : DecidableEq Value := fun _ _ => decidable_of_iff _ (Value.same_iff _ _)

instance : DecidableEq Record := fun
  | ⟨fs⟩, ⟨gs⟩ => decidable_of_iff (fs = gs) (by simp)

/-! ### Parts of a value -/

namespace Value

def isNull : Value → Bool
  | .null => true
  | _ => false

def asInt? : Value → Option Int64
  | .int n => some n
  | _ => none

/-- Whole numbers count as their nearest float. -/
def asDouble? : Value → Option Double
  | .int n => some (.ofInt n)
  | .float x => some x
  | _ => none

def asText? : Value → Option String
  | .text s => some s
  | _ => none

def asList? : Value → Option (List Value)
  | .list items => some items
  | _ => none

def asRecord? : Value → Option Record
  | .record r => some r
  | _ => none

end Value

namespace Record

def empty : Record := ⟨[]⟩

def names (r : Record) : List String := r.fields.map (·.1)

/-- The first value of a name. -/
def get? (r : Record) (name : String) : Option Value := r.fields.lookup name

/-- The first value of a name, null where there is none. -/
def value (r : Record) (name : String) : Value := (r.get? name).getD .null

/-- Replaces the first field of a name, or adds one at the end. -/
def setField (name : String) (value : Value) : List (String × Value) → List (String × Value)
  | [] => [(name, value)]
  | (n, v) :: rest => if n = name then (name, value) :: rest else (n, v) :: setField name value rest

def set (r : Record) (name : String) (value : Value) : Record := ⟨setField name value r.fields⟩

end Record

/-! ### Defaults -/

mutual

def DataType.default : DataType → Value
  | .null => .null
  | .boolean => .bool false
  | .int32 => .int 0
  | .int64 => .int 0
  | .float32 => .float .zero
  | .float64 => .float .zero
  | .string => .text ""
  | .binary => .bytes []
  | .list _ => .list []
  | .set _ => .list []
  | .struct type => .record type.default

/-- A record with every field of its type: null where the type allows it. -/
def RecordType.default : RecordType → Record
  | ⟨_, fields⟩ => ⟨Field.defaults fields⟩

def Field.defaults : List Field → List (String × Value)
  | [] => []
  | ⟨name, type, nullable⟩ :: rest =>
    (name, if nullable then .null else type.default) :: Field.defaults rest

end

end RecordFlow
