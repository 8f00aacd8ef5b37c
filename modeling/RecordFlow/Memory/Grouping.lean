import RecordFlow.Error
import RecordFlow.Memory.Accumulator
import RecordFlow.Schema.Conform

/-! Records aggregated in one pass: each goes to the group of its keys, groups stand in the order of
their first record. Without keys there is one group, also of no records. -/

namespace RecordFlow.Memory

open Aggregation (Layout)

/-- A group with its keys. No two groups have the same keys, so looking for the group of some keys
among the groups is looking up its position in a table by keys beside them. -/
structure Group where
  keys : List Value
  accumulators : List Accumulator

def freshAccumulators (layout : Layout) : List Accumulator :=
  layout.entries.map fun entry => .fresh entry.1

/-- The values at the keys of a layout. -/
def keysOf (layout : Layout) (values : List Value) : List Value :=
  ((layout.entries.zip values).filter fun pair => Layout.isKey pair.1).map (·.2)

def Group.add (g : Group) (values : List Value) : Group :=
  { g with accumulators := List.zipWith Accumulator.add g.accumulators values }

/-- Adds values to the group of their keys, opening one at the end if there is none. -/
def addRow (layout : Layout) (keys values : List Value) : List Group → List Group
  | [] => [(Group.mk keys (freshAccumulators layout)).add values]
  | g :: rest => if g.keys = keys then g.add values :: rest else g :: addRow layout keys values rest

/-- The groups before any record. -/
def initialGroups (layout : Layout) : List Group :=
  if layout.entries.any Layout.isKey then [] else [⟨[], freshAccumulators layout⟩]

/-- Adds records one by one; the first whose aggregation does not fit the layout fails. -/
def groupRecords (builder : Record → Aggregation) (layout : Layout) :
    List Group → List Record → Except Error (List Group)
  | groups, [] => .ok groups
  | groups, r :: rest =>
    let a := builder r
    match layout.check a with
    | .error flaw => .error (.aggregation flaw)
    | .ok () => groupRecords builder layout
      (addRow layout (keysOf layout a.values) a.values groups) rest

/-- The record of a group. -/
def Group.record (layout : Layout) (g : Group) : Record :=
  ⟨List.zipWith (fun entry a => (entry.2, a.value)) layout.entries g.accumulators⟩

def aggregate (records : List Record) (builder : Record → Aggregation) (layout : Layout)
    (schema : Schema) : Except Error (List Record) := do
  let groups ← groupRecords builder layout (initialGroups layout) records
  return groups.map fun g => schema.conform (g.record layout)

end RecordFlow.Memory
