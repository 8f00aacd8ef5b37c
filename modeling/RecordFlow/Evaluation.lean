import RecordFlow.Engine

/-! The evaluation of steps to the datasets of a backend. A step comes after its source and the
sources of its performed joins, in this order, and each step is evaluated once: its dataset is kept,
also when a later step fails. -/

namespace RecordFlow

namespace Evaluation

variable {m : Type → Type} {D : Type} [Monad m]

/-- Backend calls that keep the datasets of evaluated steps. -/
abbrev Cached (m : Type → Type) (D : Type) := ExceptT Error (StateT (StepMap D) m)

def perform {α : Type} (call : ExceptT Error m α) : Cached m D α :=
  ExceptT.mk (StateT.lift call.run)

/-- The inputs of a performed join, evaluated in order. -/
def joinInput (evaluate : StepId → Cached m D D) (j : Join) : Cached m D (JoinInput D) := do
  let sources ← j.sources.mapM evaluate
  return ⟨j.field, j.kind, sources, j.key, j.indexField?⟩

/-- Evaluates one step; `evaluate` gives the datasets of its inputs. -/
def evaluateStep (e : Engine m D) (plan : Plan) (evaluate : StepId → Cached m D D)
    (step : Step) : Cached m D D := do
  let context := plan.context step
  match step.operation with
  | .empty => perform (e.emptyDataset context)
  | .readCsv locator => perform (e.readCsv context locator)
  | .readParquet locator => perform (e.readParquet context locator)
  | .filter source predicate =>
    let input ← evaluate source
    perform (e.filter context input predicate)
  | .map source function =>
    let input ← evaluate source
    perform (e.map context input function)
  | .flatMap source function =>
    let input ← evaluate source
    perform (e.flatMap context input function)
  | .aggregate source builder layout =>
    let input ← evaluate source
    perform (e.aggregate context input builder layout)
  | .joinLeft source key _ =>
    let left ← evaluate source
    let joins ← (plan.joinsOf step).mapM (joinInput evaluate)
    perform (e.joinLeft context left key joins)
  | .limit source count =>
    let input ← evaluate source
    perform (e.limit context input count)

/-- The dataset of a step among steps that stand newest first. -/
def evaluate (e : Engine m D) (plan : Plan) : List Step → StepId → Cached m D D
  | [], id => throw (.unknownStep id)
  | step :: earlier, id =>
    if step.id = id then do
      match (← get).find? id with
      | some dataset => return dataset
      | none =>
        let dataset ← evaluateStep e plan (evaluate e plan earlier) step
        modify (·.insert id dataset)
        return dataset
    else evaluate e plan earlier id

end Evaluation

/-- Plans a run, evaluates its target and gives the records. -/
def Engine.collect {m : Type → Type} {D : Type} [Monad m] (e : Engine m D) (p : Pipeline)
    (target : StepId) (options : CollectOptions) : ExceptT Error m (List Record) := do
  let plan ← ExceptT.mk (pure (Plan.build p target options))
  let (dataset, _) ← (Evaluation.evaluate e plan p.steps target).run.run .empty
  let dataset ← ExceptT.mk (pure dataset)
  let step ← ExceptT.mk (pure (p.step target))
  e.materialize (plan.context step) dataset

end RecordFlow
