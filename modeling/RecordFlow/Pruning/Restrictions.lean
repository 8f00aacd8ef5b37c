import RecordFlow.Schema

/-! Column lists remembered by the names of record types. Applied to a column, each nested schema of
a remembered name takes the remembered columns, and these are in turn treated the same way. -/

namespace RecordFlow

mutual

/-- Replaces nested schemas, the outermost first, by the columns that `look` gives for their name. -/
def Schema.substitute (look : String → Option (List Column)) : Schema → Schema
  | ⟨name, columns⟩ =>
    match look name with
    | some found => ⟨name, found⟩
    | none => ⟨name, Column.substituteAll look columns⟩

def Column.substitute (look : String → Option (List Column)) : Column → Column
  | ⟨name, type, nullable, none⟩ => ⟨name, type, nullable, none⟩
  | ⟨name, type, nullable, some nested⟩ => ⟨name, type, nullable, some (nested.substitute look)⟩

def Column.substituteAll (look : String → Option (List Column)) : List Column → List Column
  | [] => []
  | c :: cs => c.substitute look :: Column.substituteAll look cs

end

mutual

/-- Whether the schema or one nested in it has a known name. -/
def Schema.mentions (known : String → Bool) : Schema → Bool
  | ⟨name, columns⟩ => known name || Column.mentionsAny known columns

def Column.mentions (known : String → Bool) : Column → Bool
  | ⟨_, _, _, none⟩ => false
  | ⟨_, _, _, some nested⟩ => nested.mentions known

def Column.mentionsAny (known : String → Bool) : List Column → Bool
  | [] => false
  | c :: cs => c.mentions known || Column.mentionsAny known cs

end

/-- Columns by the names of record types. -/
structure Restrictions where
  entries : List (String × List Column)

namespace Restrictions

def empty : Restrictions := ⟨[]⟩

def find? (r : Restrictions) (name : String) : Option (List Column) := r.entries.lookup name

def knows (r : Restrictions) (name : String) : Bool := (r.find? name).isSome

def erase (r : Restrictions) (name : String) : Restrictions :=
  ⟨r.entries.filter (·.1 != name)⟩

def insert (r : Restrictions) (name : String) (columns : List Column) : Restrictions :=
  ⟨(name, columns) :: (r.erase name).entries⟩

/-- Substitutes in a column; inside the columns remembered for a name that name itself is not looked up
again, so the number of names bounds the depth. What recurs without a bound and forgets no name is
`Restrictions.descend`; on what is left of record types it makes the same of a column
(`Restrictions.Prunes.descendsTo`). -/
def substituteWithin : Nat → Restrictions → Column → Column
  | 0, _, c => c
  | depth + 1, r, c => c.substitute fun name =>
    (r.find? name).map fun columns => columns.map (substituteWithin depth (r.erase name))

/-- Brings a column in line with what is remembered. -/
def updateColumn (r : Restrictions) (c : Column) : Column := substituteWithin r.entries.length r c

/-- Whether a column is touched by what is remembered. -/
def touches (r : Restrictions) (c : Column) : Bool := c.mentions r.knows

def updateColumns (r : Restrictions) (s : Schema) : Schema :=
  { s with columns := s.columns.map r.updateColumn }

/-- A schema after an update, what is remembered from then on, and whether the schema was touched. -/
structure Update where
  schema : Schema
  restrictions : Restrictions
  touched : Bool

/-- Narrows a schema to the used columns and remembers them under its name. No list of used columns,
or an empty one, narrows nothing. -/
def narrow (r : Restrictions) (s : Schema) (used : Option (List String)) : Update :=
  match used with
  | none | some [] => ⟨s, r, false⟩
  | some names =>
    let schema := r.updateColumns (s.retain names)
    ⟨schema, r.insert s.name schema.columns, true⟩

/-- Brings a schema in line with what is remembered of its name, else of the names nested in it. In
the second case its columns are remembered if any was touched. -/
def replay (r : Restrictions) (s : Schema) : Update :=
  match r.find? s.name with
  | some columns => ⟨r.updateColumns { s with columns }, r, true⟩
  | none =>
    let schema := r.updateColumns s
    if s.columns.any r.touches then ⟨schema, r.insert s.name schema.columns, true⟩
    else ⟨schema, r, false⟩

end Restrictions

end RecordFlow
