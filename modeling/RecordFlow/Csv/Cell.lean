import RecordFlow.Decimal.Reading
import RecordFlow.Error
import RecordFlow.Json.Tree
import RecordFlow.Schema.Conform
import RecordFlow.Value.Json

/-! The values of cells. Scalars are read by their type; lists, sets and records are JSON text, of
which only the outermost shape is checked. -/

namespace RecordFlow.Csv

/-- A whole number within bounds. -/
def wholeValue (low high : Int) (text : String) : Option Value :=
  match Decimal.integer? text with
  | some n => if low ≤ n ∧ n ≤ high then some (.int (.ofInt n)) else none
  | none => none

def booleanValue (text : String) : Option Value :=
  let word := String.ofList (text.toList.map Char.toLower)
  if word = "true" ∨ word = "1" then some (.bool true)
  else if word = "false" ∨ word = "0" then some (.bool false)
  else none

/-- Whether a value has the outermost shape of a type that is written as JSON. -/
def hasShape : DataType → Value → Bool
  | .struct _, v => v.asRecord?.isSome
  | _, v => v.asList?.isSome

/-- The value that a text stands for under a type. -/
def parseValue (text : String) (type : DataType) : Except ReadError Value :=
  let scalar (v : Option Value) : Except ReadError Value :=
    match v with
    | some v => .ok v
    | none => .error (.badCell text type)
  match type with
  | .null => .ok .null
  | .boolean => scalar (booleanValue text)
  | .int32 => scalar (wholeValue Int32.minValue.toInt Int32.maxValue.toInt text)
  | .int64 => scalar (wholeValue Int64.minValue.toInt Int64.maxValue.toInt text)
  | .float32 | .float64 => scalar ((Decimal.double? text).map .float)
  | .string => .ok (.text text)
  | .binary => .ok (.bytes text.toUTF8.toList)
  | .list _ | .set _ | .struct _ =>
    match Json.parse text with
    | none => .error .json
    | some json =>
      let v := json.toValue
      if hasShape type v then .ok v else .error (.badCell text type)

/-- The value of a cell of a column. An empty cell is null unless it is a text that may not be. -/
def parseCell (text : String) (c : Column) : Except ReadError Value :=
  if text = "" ∧ (c.nullable ∨ c.type ≠ .string) then .ok .null
  else do return c.conform (← parseValue text c.type)

end RecordFlow.Csv
