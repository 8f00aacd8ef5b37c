import RecordFlow.Schema
import RecordFlow.Value

/-! Records shaped by a schema: exactly its columns in its order, null where the record has no such
field, and the same inside records and lists of records. -/

namespace RecordFlow

mutual

/-- Applies a function to every record reached through lists alone. -/
def Value.mapRecords (f : Record → Record) : Value → Value
  | .record r => .record (f r)
  | .list items => .list (Value.mapRecordsAll f items)
  | v => v

def Value.mapRecordsAll (f : Record → Record) : List Value → List Value
  | [] => []
  | v :: vs => v.mapRecords f :: Value.mapRecordsAll f vs

end

mutual

def Schema.conform : Schema → Record → Record
  | ⟨_, columns⟩, r => ⟨Column.conformAll columns r⟩

def Column.conformAll : List Column → Record → List (String × Value)
  | [], _ => []
  | c :: cs, r => (c.name, c.conform (r.value c.name)) :: Column.conformAll cs r

/-- Shapes the records in a value of the column; other values stay as they are. -/
def Column.conform : Column → Value → Value
  | ⟨_, _, _, none⟩, v => v
  | ⟨_, _, _, some nested⟩, v => v.mapRecords fun r => nested.conform r

end

end RecordFlow
