import RecordFlow.Plan

/-! What an execution backend provides: for each operation a call that gives a dataset, and
the records of a dataset. An operation that is not provided is refused by name. -/

namespace RecordFlow

/-- What a backend is told of the step it performs. -/
structure StepContext where
  step : Step
  schema : Schema
  options : CollectOptions

def Plan.context (plan : Plan) (step : Step) : StepContext :=
  ⟨step, plan.schemaOf step, plan.options⟩

/-- A joined side whose steps are evaluated. -/
structure JoinInput (D : Type) where
  field : String
  kind : JoinKind
  sources : List D
  key : Record → Value
  indexField : Option String

structure Engine (m : Type → Type) (D : Type) [Monad m] where
  name : String
  emptyDataset : StepContext → ExceptT Error m D :=
    fun _ => throw (.notImplemented name "empty_dataset")
  readCsv : StepContext → String → ExceptT Error m D :=
    fun _ _ => throw (.notImplemented name "read_csv")
  readParquet : StepContext → String → ExceptT Error m D :=
    fun _ _ => throw (.notImplemented name "read_parquet")
  filter : StepContext → D → (Record → Bool) → ExceptT Error m D :=
    fun _ _ _ => throw (.notImplemented name "dataset_filter")
  map : StepContext → D → (Record → Record) → ExceptT Error m D :=
    fun _ _ _ => throw (.notImplemented name "dataset_map")
  flatMap : StepContext → D → (Record → List Record) → ExceptT Error m D :=
    fun _ _ _ => throw (.notImplemented name "dataset_flat_map")
  aggregate : StepContext → D → (Record → Aggregation) → Aggregation.Layout → ExceptT Error m D :=
    fun _ _ _ _ => throw (.notImplemented name "dataset_aggregate")
  joinLeft : StepContext → D → (Record → Value) → List (JoinInput D) → ExceptT Error m D :=
    fun _ _ _ _ => throw (.notImplemented name "dataset_join_left")
  limit : StepContext → D → Nat → ExceptT Error m D :=
    fun _ _ _ => throw (.notImplemented name "dataset_limit")
  materialize : StepContext → D → ExceptT Error m (List Record)

end RecordFlow
