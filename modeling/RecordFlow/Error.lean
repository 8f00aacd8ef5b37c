import RecordFlow.Aggregation
import RecordFlow.DataType.WellFormed
import RecordFlow.Join
import RecordFlow.Value.Text

/-! What can go wrong, as causes, and the message of each. -/

namespace RecordFlow

/-- Why a source could not be opened or read. -/
inductive ReadError where
  | io
  /-- Tabular text that is malformed or cannot be read. -/
  | csv
  /-- A malformed columnar file. -/
  | parquet
  | json
  /-- A column that may not be null is missing from the source. -/
  | missingColumn (column record : String) (place : String)
  /-- A cell that is not of the column's type. -/
  | badCell (text : String) (type : DataType)
  deriving DecidableEq

namespace ReadError

/-- The messages of parsers and of the operating system are their own. -/
def message? : ReadError → Option String
  | .missingColumn column record place =>
    some s!"Schema error: column `{column}` of {record} not found in {place}"
  | .badCell text type => some s!"Format error: failed to parse `{text}` as {type.text}"
  | _ => none

end ReadError

inductive Error where
  | invalidSeed (type : DataType)
  | malformedType (flaw : RecordType.Flaw)
  | aggregation (flaw : Aggregation.Flaw)
  | unknownJoinKind (tag : String)
  | join (flaw : Join.Flaw) (description : String)
  | negativeLimit (count : Int)
  | unknownStep (id : StepId)
  | notImplemented (engine operation : String)
  | io
  | serialization
  | unreadable (cause : ReadError)
  | manyMatches (field : String) (found : Nat) (key : Value)
  deriving DecidableEq

namespace Error

/-- The message, where it is this library's own. -/
def message? : Error → Option String
  | .invalidSeed type =>
    some s!"Invalid seed: expecting a structured record type, got {type.text}"
  | .malformedType flaw => some s!"Malformed record type: {flaw.message}"
  | .aggregation (.outOfOrder index expected actual) =>
    some (Aggregation.Flaw.outOfOrder index expected actual).message
  | .aggregation .onlyKeys => some Aggregation.Flaw.onlyKeys.message
  | .aggregation flaw => some s!"Invalid aggregate specification: {flaw.message}"
  | .unknownJoinKind tag => some s!"Invalid join spec: unknown join kind `{tag}`"
  | .join flaw description => some s!"Invalid join spec: {flaw.message}: {description}"
  | .negativeLimit count =>
    some s!"Invalid argument: limit must be non-negative, got {count}"
  | .unknownStep id => some s!"Unknown dataset step: {id.text}"
  | .notImplemented engine operation => some s!"`{operation}` not implemented for {engine}"
  | .io => none
  | .serialization => none
  | .unreadable cause => cause.message?.map ("Execution error: " ++ ·)
  | .manyMatches field found key =>
    some (s!"Execution error: join field `{field}` expects at most one match, " ++
      s!"found {found} for key {key.display}")

/-- How a read that fails ends a run. -/
def ofRead : ReadError → Error
  | .io => .io
  | .json => .serialization
  | cause => .unreadable cause

end Error

end RecordFlow
