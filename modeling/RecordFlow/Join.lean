import RecordFlow.StepId
import RecordFlow.Text.Quoted
import RecordFlow.Value

/-! What is joined to the left side of a join: steps, a key of their records, and the field that takes
the matches. A description is checked once, when the join is added to a pipeline. -/

namespace RecordFlow

/-- How matches are put into the left record: as one record, as a list, or as a list over several
steps with the position of each match's step beside it. -/
inductive JoinKind where
  | single
  | multi
  | multiArray
  deriving DecidableEq, Repr

namespace JoinKind

def all : List JoinKind := [.single, .multi, .multiArray]

def tag : JoinKind → String
  | .single => "right_single"
  | .multi => "right_multi"
  | .multiArray => "right_multi_array"

def ofTag? (tag : String) : Option JoinKind := all.find? (·.tag == tag)

/-- The kind in labels. -/
def label : JoinKind → String
  | .single => "Single"
  | .multi => "Multi"
  | .multiArray => "MultiArray"

end JoinKind

structure Join where
  field : String
  kind : JoinKind
  sources : List StepId
  key : Record → Value

namespace Join

/-- The field beside the matches that takes the positions of their steps. -/
def indexField? (j : Join) : Option String :=
  match j.kind with
  | .multiArray => some (j.field ++ "_index")
  | _ => none

def text (j : Join) : String :=
  "JoinSpec \x7b field_name: " ++ Text.quote j.field ++ ", kind: " ++ j.kind.label ++
    ", sources: " ++ Text.bracketed (j.sources.map fun id => s!"StepId({id.number})") ++ ", .. \x7d"

inductive Source where
  | step (id : StepId)
  | steps (ids : List StepId)

/-- A join as it is asked for. -/
structure Description where
  field : String
  kindTag : String
  source : Source
  key : Option (Record → Value)

def Source.text : Source → String
  | .step id => id.text
  | .steps ids => Text.bracketed (ids.map (·.text))

def Description.text (d : Description) : String :=
  let key := if d.key.isSome then "<fn>" else "<missing>"
  s!"({Text.quote d.field}, ({Text.quote d.kindTag}, {d.source.text}), (\"key\", {key}))"

inductive Flaw where
  | missingField
  | unknownKind
  | missingKey
  | notAList
  | notASingle
  | foreign (id : StepId)
  deriving DecidableEq

def Flaw.message : Flaw → String
  | .missingField => "missing field name"
  | .unknownKind => "unknown join kind"
  | .missingKey => "missing key function"
  | .notAList => "expecting a list of datasets"
  | .notASingle => "expecting a single dataset"
  | .foreign id => s!"{id.text} is not a dataset of this pipeline"

/-- The steps of a source; only a join over several steps takes a list. -/
def Source.stepsFor : Source → JoinKind → Except Flaw (List StepId)
  | .steps ids, .multiArray => .ok ids
  | .step _, .multiArray => .error .notAList
  | .step id, _ => .ok [id]
  | .steps _, _ => .error .notASingle

/-- Checks a description; `known` tells the steps of the pipeline. -/
def decode (known : StepId → Bool) (d : Description) : Except Flaw Join :=
  if d.field = "" then .error .missingField
  else
    match JoinKind.ofTag? d.kindTag, d.key with
    | none, _ => .error .unknownKind
    | some _, none => .error .missingKey
    | some kind, some key => do
      let sources ← d.source.stepsFor kind
      match sources.find? fun id => !known id with
      | some id => .error (.foreign id)
      | none => .ok ⟨d.field, kind, sources, key⟩

end Join

end RecordFlow
