import RecordFlow.DataType

/-! Which record types have a schema: at every depth the fields of a record have names, no two of
them the same, and no field's type bottoms out in the null type. -/

namespace RecordFlow

/-- Why a type has no schema. -/
inductive RecordType.Flaw where
  | unnamedField (record : String)
  | repeatedField (record field : String)
  | untypedField (record field : String)
  | notARecord (type : DataType)
  deriving DecidableEq

def RecordType.Flaw.message : RecordType.Flaw → String
  | .unnamedField record => s!"record `{record}` has a field without a name"
  | .repeatedField record field => s!"record `{record}` declares field `{field}` twice"
  | .untypedField record field => s!"field `{record}.{field}` has no representable type"
  | .notARecord type => s!"expecting a structured record, got {type.text}"

mutual

/-- Checks the type of one field of a record. -/
def DataType.check (record field : String) : DataType → Except RecordType.Flaw Unit
  | .null => .error (.untypedField record field)
  | .list item => item.check record field
  | .set item => item.check record field
  | .struct type => type.check
  | _ => .ok ()

/-- The first flaw in declared order, a field's name before its type. -/
def RecordType.check : RecordType → Except RecordType.Flaw Unit
  | ⟨name, fields⟩ => Field.checkAll name [] fields

/-- Checks the fields that follow fields of the names `seen`. -/
def Field.checkAll (record : String) (seen : List String) :
    List Field → Except RecordType.Flaw Unit
  | [] => .ok ()
  | ⟨name, type, _⟩ :: rest =>
    if name = "" then .error (.unnamedField record)
    else if name ∈ seen then .error (.repeatedField record name)
    else do
      type.check record name
      Field.checkAll record (name :: seen) rest

end

end RecordFlow
