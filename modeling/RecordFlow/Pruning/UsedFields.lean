import RecordFlow.Pipeline

/-! Which fields of each record type are read on the way to a target. Records that reach the target
as they are, and records read by a function that declares nothing, are used in full. -/

namespace RecordFlow

structure UsedFields where
  /-- Record types used in full. -/
  unrestricted : NameSet
  /-- The fields that functions declare. -/
  declared : FieldSets

namespace UsedFields

def empty : UsedFields := ⟨.empty, .empty⟩

def isUnrestricted (u : UsedFields) (type : String) : Bool := type ∈ u.unrestricted

/-- The used fields of a record type in declared order, none if it is used in full or if no function
declares anything of it. -/
def fieldsOf? (u : UsedFields) (type : RecordType) : Option (List String) :=
  if u.isUnrestricted type.name then none
  else (u.declared.find? type.name).map fun set => type.fieldNames.filter (· ∈ set)

def useFully (u : UsedFields) (type : String) : UsedFields :=
  { u with unrestricted := u.unrestricted.insert type }

/-- Uses the record types of some steps in full. -/
def useInputs (steps : List Step) (u : UsedFields) : List StepId → Except Error UsedFields
  | [] => .ok u
  | id :: rest =>
    match findStep id steps with
    | some step => useInputs steps (u.useFully step.seed.name) rest
    | none => .error (.unknownStep id)

/-- What the function of a step reads of its inputs, which are among `earlier`. -/
def useFunction (earlier : List Step) (step : Step) (u : UsedFields) : Except Error UsedFields :=
  if step.operation.appliesFunction then
    match step.usage with
    | .declared sets => .ok { u with declared := u.declared.union sets }
    | .unknown => useInputs earlier u step.inputs
  else .ok u

/-- What was found so far, and the steps seen with and without their records being collected. -/
structure Traversal where
  found : UsedFields
  seen : List (StepId × Bool)

/-- Goes from a step to its inputs. `direct` says that the step's records are collected: they then
pass on to the source unless the step makes new records, and to joined records in any case. -/
def visit : List Step → Traversal → StepId → Bool → Except Error Traversal
  | [], t, id, direct => if (id, direct) ∈ t.seen then .ok t else .error (.unknownStep id)
  | step :: earlier, t, id, direct =>
    if (id, direct) ∈ t.seen then .ok t
    else if step.id = id then do
      let found := if direct then t.found.useFully step.seed.name else t.found
      let found ← found.useFunction earlier step
      let t : Traversal := ⟨found, (id, direct) :: t.seen⟩
      let t ← match step.source? with
        | some source => visit earlier t source (direct && step.operation.passesRecords)
        | none => pure t
      (step.joins.flatMap (·.sources)).foldlM (fun t right => visit earlier t right direct) t
    else visit earlier t id direct

/-- What is used of each record type when a target is collected. -/
def collect (p : Pipeline) (target : StepId) : Except Error UsedFields := do
  return (← visit p.steps ⟨.empty, []⟩ target true).found

end UsedFields

end RecordFlow
