import RecordFlow.Decimal
import RecordFlow.Text.Quoted
import RecordFlow.Value

/-! The texts of values in messages: strings quoted, bytes by their count. -/

namespace RecordFlow

mutual

def Value.display : Value → String
  | .null => "null"
  | .bool b => if b then "true" else "false"
  | .int n => toString n.toInt
  | .float x => x.text
  | .text s => Text.quote s
  | .bytes b => "<" ++ toString b.length ++ " bytes>"
  | .list items => Text.bracketed (Value.displayAll items)
  | .record ⟨fields⟩ => "\x7b" ++ ", ".intercalate (Record.displayFields fields) ++ "\x7d"

def Value.displayAll : List Value → List String
  | [] => []
  | v :: vs => v.display :: Value.displayAll vs

def Record.displayFields : List (String × Value) → List String
  | [] => []
  | (name, v) :: fields => (name ++ ": " ++ v.display) :: Record.displayFields fields

end

def Record.display (r : Record) : String := Value.display (.record r)

end RecordFlow
