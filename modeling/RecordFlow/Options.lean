import RecordFlow.Json.Tree

/-! The settings of one run, and their form as JSON text. -/

namespace RecordFlow

structure CollectOptions where
  disableColumnPruning : Bool := false
  deriving DecidableEq

namespace CollectOptions

def pruningDisabled : CollectOptions := ⟨true⟩

def flagName : String := "disable_column_pruning"

open Json in
/-- The value of a setting among the members of an object, `seen` being the one met before. Other
members may hold anything; the setting may stand once, and its key has to be a text. -/
def readMembers : Option Bool → List (Option String × Tree) → Option CollectOptions
  | seen, [] => some ⟨seen.getD false⟩
  | _, (none, _) :: _ => none
  | seen, (some key, tree) :: rest =>
    if key = flagName then
      match seen, tree with
      | none, .bool b => readMembers (some b) rest
      | _, _ => none
    else readMembers seen rest

/-- Settings stand in an object by name or in a list by position; what is missing has its default. -/
def parse (s : String) : Option CollectOptions :=
  match Json.Tree.parse s with
  | some (.object members) => readMembers none members
  | some (.list []) => some {}
  | some (.list [.bool b]) => some ⟨b⟩
  | _ => none

def toJson (o : CollectOptions) : Json := .ofMembers [(flagName, .bool o.disableColumnPruning)]

end CollectOptions

end RecordFlow
