import RecordFlow.Options
import RecordFlow.Pruning.Resolution

/-! The plan of one run: the narrowed schemas of the steps it needs and the joins it performs. With
pruning disabled all schemas are the declared ones and all joins are performed. -/

namespace RecordFlow

structure Plan where
  target : StepId
  options : CollectOptions
  schemas : StepMap Schema
  activeJoins : StepMap NameSet

namespace Plan

def build (p : Pipeline) (target : StepId) (options : CollectOptions) : Except Error Plan := do
  let _ ← p.step target
  if options.disableColumnPruning then return ⟨target, options, .empty, .empty⟩
  let used ← UsedFields.collect p target
  let resolution ← Resolution.fresh.update p used target
  return ⟨target, options, resolution.schemas, resolution.activeJoins⟩

def schemaOf (plan : Plan) (step : Step) : Schema := (plan.schemas.find? step.id).getD step.schema

/-- The joins of a step that are performed. -/
def joinsOf (plan : Plan) (step : Step) : List Join :=
  match plan.activeJoins.find? step.id with
  | some active => step.joins.filter (·.field ∈ active)
  | none => step.joins

/-- Whether the run needs a step that its target depends on. -/
def needs (plan : Plan) (id : StepId) : Bool :=
  plan.options.disableColumnPruning || plan.schemas.contains id

def describe (plan : Plan) (p : Pipeline) : Except Error (List Step.Description) := do
  let reachable ← p.reachable plan.target
  (reachable.filter plan.needs).mapM fun id => do
    let step ← p.step id
    return step.describe (plan.schemaOf step)

end Plan

end RecordFlow
