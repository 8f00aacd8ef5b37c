import RecordFlow.Engine
import RecordFlow.Schema.Conform

/-! Records joined through an index of the right side by key. Null keys match nothing; matches stand in
the order of their sources and, within a source, of its records. -/

namespace RecordFlow.Memory

/-- A record of the right side with the position of its source. -/
structure Match where
  ordinal : Nat
  record : Record

/-- The records of the right side by key. -/
structure Index where
  entries : List (Value × List Match)

namespace Index

def addIn (key : Value) (found : Match) : List (Value × List Match) → List (Value × List Match)
  | [] => [(key, [found])]
  | (k, ms) :: rest => if k = key then (k, ms ++ [found]) :: rest else (k, ms) :: addIn key found rest

def add (i : Index) (key : Value) (found : Match) : Index :=
  if key.isNull then i else ⟨addIn key found i.entries⟩

/-- The matches of a key in the order they were added. -/
def find (i : Index) (key : Value) : List Match := (i.entries.lookup key).getD []

/-- The records of the sources from position `ordinal` on. -/
def addSources (key : Record → Value) : Nat → List (List Record) → Index → Index
  | _, [], i => i
  | ordinal, source :: rest, i =>
    addSources key (ordinal + 1) rest
      (source.foldl (fun i record => i.add (key record) ⟨ordinal, record⟩) i)

def build (input : JoinInput (List Record)) : Index := addSources input.key 0 input.sources ⟨[]⟩

end Index

/-- Puts the matches of a key into the fields of a join. -/
def attach (input : JoinInput (List Record)) (key : Value) (found : List Match) (r : Record) :
    Except Error Record :=
  let records := Value.list (found.map fun m => .record m.record)
  match input.kind with
  | .single =>
    match found with
    | [] => .ok (r.set input.field .null)
    | [m] => .ok (r.set input.field (.record m.record))
    | _ => .error (.manyMatches input.field found.length key)
  | .multi => .ok (r.set input.field records)
  | .multiArray =>
    let r := r.set input.field records
    match input.indexField with
    | none => .ok r
    | some field => .ok (r.set field (.list (found.map fun m => .int (.ofNat m.ordinal))))

def attachAll (key : Value) :
    List (JoinInput (List Record) × Index) → Record → Except Error Record
  | [], r => .ok r
  | (input, index) :: rest, r => do attachAll key rest (← attach input key (index.find key) r)

/-- Every record of the left side, in order, with the fields of the joins. -/
def joinLeft (left : List Record) (leftKey : Record → Value)
    (inputs : List (JoinInput (List Record))) (schema : Schema) : Except Error (List Record) :=
  let indexed := inputs.map fun input => (input, Index.build input)
  left.mapM fun r => do return schema.conform (← attachAll (leftKey r) indexed r)

end RecordFlow.Memory
