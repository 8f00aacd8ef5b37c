import RecordFlow.Text.Quoted
import RecordFlow.Value

/-! What an aggregating function says of one record: for each field of the result how it is computed
and from which value. The layout of a result is decoded once, from the aggregation of a probe record,
and every later aggregation is checked against it. -/

namespace RecordFlow

/-- How a field of the result is computed. -/
inductive AggregationKind where
  | groupBy
  | count
  | min
  | max
  | sum
  | mean
  | toSet
  | toArray
  | countDistinct
  deriving DecidableEq, Repr

namespace AggregationKind

def all : List AggregationKind :=
  [.groupBy, .count, .min, .max, .sum, .mean, .toSet, .toArray, .countDistinct]

def tag : AggregationKind → String
  | .groupBy => "group_by"
  | .count => "count"
  | .min => "min"
  | .max => "max"
  | .sum => "sum"
  | .mean => "mean"
  | .toSet => "to_set"
  | .toArray => "to_array"
  | .countDistinct => "count_distinct"

def ofTag? (tag : String) : Option AggregationKind := all.find? (·.tag == tag)

/-- The kind in labels. -/
def label : AggregationKind → String
  | .groupBy => "GroupBy"
  | .count => "Count"
  | .min => "Min"
  | .max => "Max"
  | .sum => "Sum"
  | .mean => "Mean"
  | .toSet => "ToSet"
  | .toArray => "ToArray"
  | .countDistinct => "CountDistinct"

end AggregationKind

namespace Aggregation

structure Entry where
  kind : AggregationKind
  field : String
  value : Value
  deriving DecidableEq

/-- Why an aggregation has no layout, or not the one expected. -/
inductive Flaw where
  | unknownKind (tag : String)
  | noFields (record : String)
  | tooManyFields (index : Nat) (field : String) (declared : List String)
  | outOfOrder (index : Nat) (expected actual : String)
  | tooFewFields (given : Nat) (record : String) (declared : List String)
  | onlyKeys
  | lengthDiffers (given expected : Nat)
  | kindDiffers (field : String) (given expected : AggregationKind)
  deriving DecidableEq

def Flaw.message : Flaw → String
  | .unknownKind tag => s!"unknown aggregation `{tag}`"
  | .noFields record => s!"aggregation for `{record}` has no fields"
  | .tooManyFields index field declared =>
    s!"too many fields in aggregation, at index {index} for field `{field}`; " ++
      s!"expected field names: {Text.quoteList declared}"
  | .outOfOrder index expected actual =>
    s!"Unexpected field `{actual}` at index {index}, expected `{expected}`"
  | .tooFewFields given record declared =>
    s!"aggregation provides {given} fields, `{record}` declares {Text.quoteList declared}"
  | .onlyKeys => "No aggregations were specified"
  | .lengthDiffers given expected =>
    s!"aggregation produced {given} fields, expected {expected}"
  | .kindDiffers field given expected =>
    s!"field `{field}` aggregated as `{given.tag}`, expected `{expected.tag}`"

end Aggregation

structure Aggregation where
  entries : List Aggregation.Entry
  deriving DecidableEq

namespace Aggregation

def values (a : Aggregation) : List Value := a.entries.map (·.value)

/-- Adds an entry whose kind is given by its tag. -/
def tagged (a : Aggregation) (tag field : String) (value : Value) : Except Flaw Aggregation :=
  match AggregationKind.ofTag? tag with
  | some kind => .ok ⟨a.entries ++ [⟨kind, field, value⟩]⟩
  | none => .error (.unknownKind tag)

/-- The name of an entry that takes the name of the field at its position, as the empty name does. -/
def unnamed : String := "_unnamed"

/-- The kinds and names of the fields of a result. -/
structure Layout where
  entries : List (AggregationKind × String)
  deriving DecidableEq

namespace Layout

/-- Pairs the entries from position `index` on with the field names from there on. -/
def pair (declared : List String) :
    Nat → List String → List Entry → Except Flaw (List (AggregationKind × String))
  | _, _, [] => .ok []
  | index, [], entry :: _ => .error (.tooManyFields index entry.field declared)
  | index, name :: names, entry :: rest =>
    if entry.field = "" ∨ entry.field = unnamed ∨ entry.field = name then do
      let paired ← pair declared (index + 1) names rest
      return (entry.kind, name) :: paired
    else .error (.outOfOrder index name entry.field)

/-- The layout of an aggregation that has one entry per field of the result type, in declared
order, and computes more than keys. -/
def decode (type : RecordType) (a : Aggregation) : Except Flaw Layout := do
  let declared := type.fieldNames
  if a.entries.isEmpty then throw (.noFields type.name)
  let entries ← pair declared 0 declared a.entries
  if entries.length < declared.length then
    throw (.tooFewFields entries.length type.name declared)
  if entries.all (·.1 == .groupBy) then throw .onlyKeys
  return ⟨entries⟩

def checkKinds : List Entry → List (AggregationKind × String) → Except Flaw Unit
  | entry :: rest, (kind, name) :: expected =>
    if entry.kind = kind then checkKinds rest expected
    else .error (.kindDiffers name entry.kind kind)
  | _, _ => .ok ()

/-- Accepts aggregations of the same length and kinds. -/
def check (layout : Layout) (a : Aggregation) : Except Flaw Unit :=
  if a.entries.length = layout.entries.length then checkKinds a.entries layout.entries
  else .error (.lengthDiffers a.entries.length layout.entries.length)

def isKey (entry : AggregationKind × String) : Bool := entry.1 == .groupBy

def groupNames (layout : Layout) : List String := (layout.entries.filter isKey).map (·.2)

def text (layout : Layout) : String :=
  "AggregateSpec \x7b entries: " ++
    Text.bracketed (layout.entries.map fun (kind, name) => s!"({kind.label}, {Text.quote name})") ++
    " \x7d"

def toJson (layout : Layout) : Json :=
  .ofMembers [("entries", .list (layout.entries.map fun (kind, name) =>
    .list [.text kind.label, .text name]))]

end Layout

/-- The layout that a function gives for its probe, the default record of the type it reads. -/
def layoutOf (builder : Record → Aggregation) (source result : RecordType) : Except Flaw Layout :=
  Layout.decode result (builder source.default)

end Aggregation

end RecordFlow
