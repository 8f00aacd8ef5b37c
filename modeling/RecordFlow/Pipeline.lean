import RecordFlow.Error
import RecordFlow.Step

/-! Pipelines grow by steps that refer to steps already there. Whatever goes down from a step to its
inputs can therefore recur on the list of steps, the newest first: every input lies in its tail. -/

namespace RecordFlow

structure Pipeline where
  /-- The newest step first. -/
  steps : List Step

/-- The step of an id among steps that stand newest first. -/
def findStep (id : StepId) (steps : List Step) : Option Step := steps.find? (·.id == id)

/-- The step of an id among steps whose ids rise: the half that the id falls into is searched on, as
often as `depth` says. -/
def searchWithin (id : StepId) : Nat → List Step → Option Step
  | 0, steps => steps.head?.filter (·.id == id)
  | depth + 1, steps =>
    let upper := steps.drop (steps.length / 2)
    if upper.head?.any (id.number < ·.id.number) then
      searchWithin id depth (steps.take (steps.length / 2))
    else searchWithin id depth upper

namespace Pipeline

def empty : Pipeline := ⟨[]⟩

/-- Ids rise in the order of construction, so that steps are found by halving. -/
def find? (p : Pipeline) (id : StepId) : Option Step :=
  searchWithin id (p.steps.length.log2 + 1) p.steps.reverse

def step (p : Pipeline) (id : StepId) : Except Error Step :=
  match p.find? id with
  | some step => .ok step
  | none => .error (.unknownStep id)

def contains (p : Pipeline) (id : StepId) : Bool := (p.find? id).isSome

/-- The ids in the order of construction. -/
def ids (p : Pipeline) : List StepId := p.steps.reverse.map (·.id)

/-! ### Construction -/

/-- A step as it is asked for. -/
inductive Request where
  | empty (seed : DataType)
  | readCsv (seed : DataType) (locator : String)
  | readParquet (seed : DataType) (locator : String)
  | filter (source : StepId) (predicate : Record → Bool) (usage : FieldUsage)
  | map (source : StepId) (seed : DataType) (function : Record → Record) (usage : FieldUsage)
  | flatMap (source : StepId) (seed : DataType) (function : Record → List Record)
    (usage : FieldUsage)
  | aggregate (source : StepId) (seed : DataType) (builder : Record → Aggregation)
    (usage : FieldUsage)
  | joinLeft (source : StepId) (seed : DataType) (key : Record → Value)
    (right : List Join.Description) (usage : FieldUsage)
  | limit (source : StepId) (count : Int)

/-- The record type and the schema of a seed. -/
def seedSchema : DataType → Except Error (RecordType × Schema)
  | .struct type =>
    match Schema.ofRecordType type with
    | .ok schema => .ok (type, schema)
    | .error flaw => .error (.malformedType flaw)
  | type => .error (.invalidSeed type)

/-- Checks the joined sides in order. -/
def decodeJoins (p : Pipeline) : List Join.Description → Except Error (List Join)
  | [] => .ok []
  | d :: rest =>
    match Join.decode p.contains d with
    | .ok join => do return join :: (← p.decodeJoins rest)
    | .error flaw => .error (.join flaw d.text)

/-- Checks a request against the steps that are there and gives the step it asks for. -/
def resolve (p : Pipeline) (id : StepId) : Request → Except Error Step
  | .empty seed => do
    let (seed, schema) ← seedSchema seed
    return ⟨id, seed, schema, .unknown, .empty⟩
  | .readCsv seed locator => do
    let (seed, schema) ← seedSchema seed
    return ⟨id, seed, schema, .unknown, .readCsv locator⟩
  | .readParquet seed locator => do
    let (seed, schema) ← seedSchema seed
    return ⟨id, seed, schema, .unknown, .readParquet locator⟩
  | .filter source predicate usage => do
    let input ← p.step source
    return ⟨id, input.seed, input.schema, usage, .filter source predicate⟩
  | .map source seed function usage => do
    let _ ← p.step source
    let (seed, schema) ← seedSchema seed
    return ⟨id, seed, schema, usage, .map source function⟩
  | .flatMap source seed function usage => do
    let _ ← p.step source
    let (seed, schema) ← seedSchema seed
    return ⟨id, seed, schema, usage, .flatMap source function⟩
  | .aggregate source seed builder usage => do
    let input ← p.step source
    let (seed, schema) ← seedSchema seed
    match Aggregation.layoutOf builder input.seed seed with
    | .ok layout => return ⟨id, seed, schema, usage, .aggregate source builder layout⟩
    | .error flaw => throw (.aggregation flaw)
  | .joinLeft source seed key right usage => do
    let _ ← p.step source
    let (seed, schema) ← seedSchema seed
    let joins ← p.decodeJoins right
    return ⟨id, seed, schema, usage, .joinLeft source key joins⟩
  | .limit source count => do
    if count < 0 then throw (.negativeLimit count)
    let input ← p.step source
    return ⟨id, input.seed, input.schema, .unknown, .limit source count.toNat⟩

def push (p : Pipeline) (step : Step) : Pipeline := ⟨step :: p.steps⟩

/-! ### Traversal -/

/-- Extends `order` by the steps reachable from an id, each after its inputs. -/
def reach : List Step → List StepId → StepId → Except Error (List StepId)
  | [], order, id => if id ∈ order then .ok order else .error (.unknownStep id)
  | step :: earlier, order, id =>
    if id ∈ order then .ok order
    else if step.id = id then do
      let order ← step.inputs.foldlM (reach earlier) order
      return order ++ [id]
    else reach earlier order id

/-- The steps a step depends on, itself the last, each after its inputs. -/
def reachable (p : Pipeline) (target : StepId) : Except Error (List StepId) :=
  reach p.steps [] target

def describe (p : Pipeline) (target : StepId) : Except Error (List Step.Description) := do
  (← p.reachable target).mapM fun id => do
    let step ← p.step id
    return step.describe step.schema

end Pipeline

/-- Pipelines that draw the ids of their steps from one counter. -/
structure Workspace where
  next : StepId
  pipelines : List Pipeline

namespace Workspace

def empty : Workspace := ⟨⟨1⟩, []⟩

/-- The pipeline at a position; positions not taken yet hold empty pipelines. -/
def pipeline (w : Workspace) (index : Nat) : Pipeline := w.pipelines.getD index .empty

/-- Puts a pipeline at a position. -/
def setAt (index : Nat) (p : Pipeline) : List Pipeline → List Pipeline
  | [] => List.replicate index .empty ++ [p]
  | q :: rest => match index with
    | 0 => p :: rest
    | index + 1 => q :: setAt index p rest

/-- Changes to a workspace. What was changed stays changed if a later part fails. -/
abbrev Construction := ExceptT Error (StateM Workspace)

def takeId : Construction StepId := do
  let w ← get
  set { w with next := ⟨w.next.number + 1⟩ }
  return w.next

/-- Adds a step to the pipeline at a position. An id is taken once all is checked. -/
def construct (index : Nat) (request : Pipeline.Request) : Construction StepId := do
  let w ← get
  let step ← ExceptT.mk (pure ((w.pipeline index).resolve w.next request))
  let id ← takeId
  modify fun w =>
    { w with pipelines := setAt index ((w.pipeline index).push step) w.pipelines }
  return id

/-- The workspace with a step more and the id of the step, or why the request is refused. -/
def add (w : Workspace) (index : Nat) (request : Pipeline.Request) :
    Except Error (Workspace × StepId) :=
  match (construct index request).run.run w with
  | (.ok id, w) => .ok (w, id)
  | (.error e, _) => .error e

/-- Fills the positions up to and with `index`. -/
def ensure (w : Workspace) (index : Nat) : Workspace :=
  { w with pipelines := setAt index (w.pipeline index) w.pipelines }

/-- Adds a pipeline with the steps of the one at a position, and tells where. -/
def copy (w : Workspace) (index : Nat) : Workspace × Nat :=
  let w := w.ensure index
  ({ w with pipelines := w.pipelines ++ [w.pipeline index] }, w.pipelines.length)

end Workspace

end RecordFlow
