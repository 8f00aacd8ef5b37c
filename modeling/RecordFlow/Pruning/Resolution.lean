import RecordFlow.Pruning.Restrictions
import RecordFlow.Pruning.UsedFields
import RecordFlow.StepMap

/-! The schemas of steps narrowed to the used columns, from the reads forward. Reads are narrowed to
the used fields of their record type, joins to the columns of their source and the joins that are
used; every other step takes over what is remembered of the names in its schema. -/

namespace RecordFlow

structure Resolution where
  restrictions : Restrictions
  /-- Schemas to start from instead of the declared ones. -/
  initial : StepMap Schema
  schemas : StepMap Schema
  /-- The fields of the joins that are performed, for each join step. -/
  activeJoins : StepMap NameSet

namespace Resolution

def startingFrom (initial : StepMap Schema) : Resolution := ⟨.empty, initial, .empty, .empty⟩

def fresh : Resolution := startingFrom .empty

def settle (r : Resolution) (id : StepId) (u : Restrictions.Update) : Resolution :=
  { r with restrictions := u.restrictions, schemas := r.schemas.insert id u.schema }

/-- A read is narrowed to the used fields of its record type. -/
def settleRead (used : UsedFields) (r : Resolution) (step : Step) (schema : Schema) : Resolution :=
  let narrowed := r.restrictions.narrow schema (used.fieldsOf? step.seed)
  r.settle step.id (narrowed.restrictions.replay narrowed.schema)

/-- Whether the field of a join is used. -/
def isNeeded (used : Option (List String)) (j : Join) : Bool :=
  match used with
  | none => true
  | some names => j.field ∈ names

/-- The columns that a join fills. -/
def filledColumns (j : Join) : List String := j.field :: j.indexField?.toList

/-- A join keeps the columns of its source and those that the needed joins fill. -/
def settleJoin (r : Resolution) (step : Step) (schema : Schema) (source : StepId)
    (needed : List Join) : Resolution :=
  let sourceColumns := ((r.schemas.find? source).map Schema.names).getD []
  let replayed := r.restrictions.replay schema
  let narrowed := replayed.restrictions.narrow replayed.schema
    (some (sourceColumns ++ needed.flatMap filledColumns))
  let r := r.settle step.id narrowed
  { r with activeJoins := r.activeJoins.insert step.id (NameSet.empty.insertAll (needed.map (·.field))) }

/-- Resolves a step after its source and the sources of the joins that are needed. -/
def visit (used : UsedFields) : List Step → Resolution → StepId → Except Error Resolution
  | [], r, id => if r.schemas.contains id then .ok r else .error (.unknownStep id)
  | step :: earlier, r, id =>
    if r.schemas.contains id then .ok r
    else if step.id = id then
      let schema := (r.initial.find? id).getD step.schema
      match step.operation with
      | .empty | .readCsv _ | .readParquet _ => .ok (r.settleRead used step schema)
      | .joinLeft source _ joins => do
        let needed := joins.filter (isNeeded (used.fieldsOf? step.seed))
        let r ← visit used earlier r source
        let r ← (needed.flatMap (·.sources)).foldlM (visit used earlier) r
        return r.settleJoin step schema source needed
      | .filter source _ | .map source _ | .flatMap source _ | .aggregate source _ _
      | .limit source _ => do
        let r ← visit used earlier r source
        return r.settle id (r.restrictions.replay schema)
    else visit used earlier r id

/-- Brings all columns in line with what was remembered last. -/
def replayNested (r : Resolution) : Resolution :=
  { r with schemas := r.schemas.map r.restrictions.updateColumns }

/-- Resolves a step and all that it needs. -/
def update (r : Resolution) (p : Pipeline) (used : UsedFields) (id : StepId) :
    Except Error Resolution := do
  return (← visit used p.steps r id).replayNested

end Resolution

end RecordFlow
