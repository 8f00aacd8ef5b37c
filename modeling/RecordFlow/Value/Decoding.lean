import RecordFlow.Error
import RecordFlow.Value.Json

/-! Records taken as data of another type, through their JSON form. -/

namespace RecordFlow

namespace Json

/-- A whole number of the signed range. -/
def asInt? : Json → Option Int64
  | .int n => Whole.ofInt? n
  | _ => none

/-- A text, or nothing. -/
def asOptionalText? : Json → Option (Option String)
  | .null => some none
  | .text s => some (some s)
  | _ => none

/-- An object whose members all are of one type. -/
def asMembers? {α : Type} (member? : Json → Option α) : Json → Option (List (String × α))
  | .object members => members.mapM fun (key, j) => (member? j).map (key, ·)
  | _ => none

end Json

/-- All records, or no result if one of them is not of the type. -/
def Record.decodeAll {α : Type} (decode? : Json → Option α) (records : List Record) :
    Except Error (List α) :=
  match records.mapM fun r => decode? r.toJson with
  | some decoded => .ok decoded
  | none => .error .serialization

end RecordFlow
