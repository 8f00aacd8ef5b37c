import RecordFlow.Json
import RecordFlow.Value
import RecordFlow.Whole

/-! Values as JSON and back. Bytes become lists of numbers, floats that are not finite become null,
and the fields of a record are sorted, the last of one name kept. -/

namespace RecordFlow

mutual

def Value.toJson : Value → Json
  | .null => .null
  | .bool b => .bool b
  | .int n => .int n.toInt
  | .float x => if x.isFinite then .float x else .null
  | .text s => .text s
  | .bytes b => .list (b.map fun byte => .int byte.toNat)
  | .list items => .list (Value.toJsonAll items)
  | .record ⟨fields⟩ => .ofMembers (Record.toJsonFields fields)

def Value.toJsonAll : List Value → List Json
  | [] => []
  | v :: vs => v.toJson :: Value.toJsonAll vs

def Record.toJsonFields : List (String × Value) → List (String × Json)
  | [] => []
  | (name, v) :: fields => (name, v.toJson) :: Record.toJsonFields fields

end

def Record.toJson (r : Record) : Json := Value.toJson (.record r)

mutual

/-- Whole numbers beyond the signed range become floats. -/
def Json.toValue : Json → Value
  | .null => .null
  | .bool b => .bool b
  | .int n =>
    match Whole.ofInt? n with
    | some k => .int k
    | none => .float (.ofNat n.toNat)
  | .float x => .float x
  | .text s => .text s
  | .list items => .list (Json.toValues items)
  | .object members => .record ⟨Json.toFields members⟩

def Json.toValues : List Json → List Value
  | [] => []
  | item :: rest => item.toValue :: Json.toValues rest

def Json.toFields : List (String × Json) → List (String × Value)
  | [] => []
  | (key, item) :: rest => (key, item.toValue) :: Json.toFields rest

end

end RecordFlow
