import RecordFlow.Aggregation
import RecordFlow.Join
import RecordFlow.Schema
import RecordFlow.Usage

/-! Steps, the nodes of a pipeline: an operation with its inputs, the record type of its result, the
schema declared for it, and what its function reads. -/

namespace RecordFlow

inductive Operation where
  | empty
  | readCsv (locator : String)
  | readParquet (locator : String)
  | filter (source : StepId) (predicate : Record → Bool)
  | map (source : StepId) (function : Record → Record)
  | flatMap (source : StepId) (function : Record → List Record)
  | aggregate (source : StepId) (builder : Record → Aggregation) (layout : Aggregation.Layout)
  | joinLeft (source : StepId) (key : Record → Value) (joins : List Join)
  | limit (source : StepId) (count : Nat)

namespace Operation

def source? : Operation → Option StepId
  | .empty | .readCsv _ | .readParquet _ => none
  | .filter source _ | .map source _ | .flatMap source _ | .aggregate source _ _
  | .joinLeft source _ _ | .limit source _ => some source

def joins : Operation → List Join
  | .joinLeft _ _ joins => joins
  | _ => []

/-- The name of the operation in labels. -/
def kind : Operation → String
  | .empty => "Empty"
  | .readCsv _ => "ReadCsv"
  | .readParquet _ => "ReadParquet"
  | .filter _ _ => "Filter"
  | .map _ _ => "Map"
  | .flatMap _ _ => "FlatMap"
  | .aggregate _ _ _ => "Aggregate"
  | .joinLeft _ _ _ => "JoinLeft"
  | .limit _ _ => "Limit"

/-- Whether records of the source reach the result as they are, so that collecting the result is
collecting the source. -/
def passesRecords : Operation → Bool
  | .map _ _ | .flatMap _ _ | .aggregate _ _ _ | .joinLeft _ _ _ => false
  | _ => true

theorem passesRecords_iff {operation : Operation} : operation.passesRecords = true ↔
    operation.kind ∉ ["Map", "FlatMap", "Aggregate", "JoinLeft"] := by
  cases operation <;> simp [passesRecords, kind]

/-- Whether a function is applied to the records of the inputs. -/
def appliesFunction : Operation → Bool
  | .filter _ _ | .map _ _ | .flatMap _ _ | .aggregate _ _ _ | .joinLeft _ _ _ => true
  | _ => false

theorem appliesFunction_iff {operation : Operation} : operation.appliesFunction = true ↔
    operation.kind ∈ ["Filter", "Map", "FlatMap", "Aggregate", "JoinLeft"] := by
  cases operation <;> simp [appliesFunction, kind]

def text : Operation → String
  | .readCsv locator => s!"ReadCsv({Text.quote locator})"
  | .readParquet locator => s!"ReadParquet({Text.quote locator})"
  | .aggregate _ _ layout => s!"Aggregate({layout.text})"
  | .joinLeft _ _ joins => s!"JoinLeft({Text.bracketed (joins.map Join.text)})"
  | .limit _ count => s!"Limit({count})"
  | operation => operation.kind

end Operation

structure Step where
  id : StepId
  seed : RecordType
  schema : Schema
  usage : FieldUsage
  operation : Operation

namespace Step

def source? (s : Step) : Option StepId := s.operation.source?

def joins (s : Step) : List Join := s.operation.joins

/-- The source, then the sources of the joins in order. -/
def inputs (s : Step) : List StepId := s.source?.toList ++ s.joins.flatMap (·.sources)

def text (s : Step) : String := s!"{s.operation.kind}[{s.seed.name}] {s.id.text}"

def label (s : Step) : String := s.text ++ " - " ++ s.operation.text

end Step

/-- A step as it is shown. -/
structure Step.Description where
  id : StepId
  kind : String
  seed : String
  inputs : List StepId
  columns : List String
  label : String

/-- Shows a step with a schema that may have fewer columns than declared. -/
def Step.describe (s : Step) (schema : Schema) : Step.Description :=
  ⟨s.id, s.operation.kind, s.seed.name, s.inputs, schema.names, s.label⟩

end RecordFlow
