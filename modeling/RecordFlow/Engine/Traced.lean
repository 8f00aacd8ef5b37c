import RecordFlow.Engine

/-! A backend that keeps a log of its calls: the operation, the step with its columns, and the
size of what came of it. -/

namespace RecordFlow

namespace Trace

/-- What an operation is given beside its step and its input. -/
inductive Extra where
  | nothing
  | groups (names : List String)
  | count (n : Nat)
  | joins (inputs : List (String × JoinKind × List Nat × Option String))

structure Entry where
  call : String
  id : StepId
  columns : List String
  pruning : Bool
  extra : Extra
  /-- None where the operation failed. -/
  size : Option Nat

end Trace

/-- Backend calls with a log, the latest entry first. -/
abbrev Traced := StateM (List Trace.Entry)

namespace Trace

variable {D : Type}

def record (size : D → Nat) (call : String) (extra : Extra) (context : StepContext)
    (outcome : ExceptT Error Id D) : ExceptT Error Traced D :=
  ExceptT.mk do
    let outcome : Except Error D := outcome.run.run
    let entry : Entry := ⟨call, context.step.id, context.schema.names,
      !context.options.disableColumnPruning, extra, outcome.toOption.map size⟩
    modify (entry :: ·)
    return outcome

def inputOf (size : D → Nat) (j : JoinInput D) : String × JoinKind × List Nat × Option String :=
  (j.field, j.kind, j.sources.map size, j.indexField)

end Trace

open Trace in
/-- The same backend with a log. -/
def Engine.traced {D : Type} (e : Engine Id D) (size : D → Nat) : Engine Traced D where
  name := e.name
  emptyDataset c := record size "empty_dataset" .nothing c (e.emptyDataset c)
  readCsv c locator := record size "read_csv" .nothing c (e.readCsv c locator)
  readParquet c locator := record size "read_parquet" .nothing c (e.readParquet c locator)
  filter c d predicate := record size "filter" .nothing c (e.filter c d predicate)
  map c d function := record size "map" .nothing c (e.map c d function)
  flatMap c d function := record size "flat_map" .nothing c (e.flatMap c d function)
  aggregate c d builder layout :=
    record size "aggregate" (.groups layout.groupNames) c (e.aggregate c d builder layout)
  joinLeft c left key inputs :=
    record size "join_left" (.joins (inputs.map (inputOf size))) c (e.joinLeft c left key inputs)
  limit c d count := record size "limit" (.count count) c (e.limit c d count)
  materialize c d := ExceptT.mk (pure (e.materialize c d).run.run)

end RecordFlow
