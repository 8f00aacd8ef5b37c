import RecordFlow.Double

/-! JSON values. The members of an object stand in increasing order of their keys, each key once. -/

namespace RecordFlow

inductive Json where
  | null
  | bool (b : Bool)
  /-- Whole numbers that fit in 64 bits, with a sign or without. -/
  | int (n : Int)
  | float (x : Double)
  | text (s : String)
  | list (items : List Json)
  | object (members : List (String × Json))

namespace Json

/-- Puts a member in its place; a member of the same key is replaced. -/
def insertMember (key : String) (value : Json) : List (String × Json) → List (String × Json)
  | [] => [(key, value)]
  | (k, v) :: rest =>
    if key < k then (key, value) :: (k, v) :: rest
    else if key = k then (key, value) :: rest
    else (k, v) :: insertMember key value rest

/-- Members in order of their keys; of members with one key the last stays. -/
def sortMembers (members : List (String × Json)) : List (String × Json) :=
  members.foldl (fun sorted (key, value) => insertMember key value sorted) []

def ofMembers (members : List (String × Json)) : Json := .object (sortMembers members)

end Json

end RecordFlow
