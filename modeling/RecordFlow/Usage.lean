import RecordFlow.DataType

/-! Which fields a function reads. A function that declares its use names, for record types, fields
it reads of them; of one that declares nothing, anything may be read. -/

namespace RecordFlow

/-- Names in increasing order, each once. -/
structure NameSet where
  toList : List String
  deriving DecidableEq

namespace NameSet

def empty : NameSet := ⟨[]⟩

instance : Membership String NameSet := ⟨fun s name => name ∈ s.toList⟩

instance (name : String) (s : NameSet) : Decidable (name ∈ s) :=
  inferInstanceAs (Decidable (name ∈ s.toList))

def insertIn (name : String) : List String → List String
  | [] => [name]
  | n :: rest =>
    if name < n then name :: n :: rest
    else if name = n then n :: rest
    else n :: insertIn name rest

def insert (s : NameSet) (name : String) : NameSet := ⟨insertIn name s.toList⟩

def insertAll (s : NameSet) (names : List String) : NameSet := names.foldl insert s

theorem mem_insertIn {x name : String} {names : List String} :
    x ∈ insertIn name names ↔ x = name ∨ x ∈ names := by
  fun_induction insertIn name names with
  | case1 => simp
  | case2 => simp
  | case3 => simp
  | case4 n rest _ _ ih => grind

theorem mem_insert {x name : String} {s : NameSet} : x ∈ s.insert name ↔ x = name ∨ x ∈ s :=
  mem_insertIn

theorem mem_insertAll {x : String} {names : List String} {s : NameSet} :
    x ∈ s.insertAll names ↔ x ∈ names ∨ x ∈ s := by
  induction names generalizing s with
  | nil => simp [insertAll]
  | cons n rest ih =>
    have step : s.insertAll (n :: rest) = (s.insert n).insertAll rest := rfl
    rw [step, ih, mem_insert, List.mem_cons, or_assoc, or_left_comm]

end NameSet

/-- Sets of fields by the names of record types. -/
structure FieldSets where
  entries : List (String × NameSet)
  deriving DecidableEq

namespace FieldSets

def empty : FieldSets := ⟨[]⟩

def find? (s : FieldSets) (type : String) : Option NameSet := s.entries.lookup type

def addIn (type : String) (fields : List String) :
    List (String × NameSet) → List (String × NameSet)
  | [] => [(type, NameSet.empty.insertAll fields)]
  | (t, set) :: rest =>
    if t = type then (t, set.insertAll fields) :: rest else (t, set) :: addIn type fields rest

/-- Adds fields to the set of a type, which is there afterwards even if no field was added. -/
def add (s : FieldSets) (type : String) (fields : List String) : FieldSets :=
  ⟨addIn type fields s.entries⟩

def union (s t : FieldSets) : FieldSets :=
  t.entries.foldl (fun s (type, set) => s.add type set.toList) s

end FieldSets

inductive FieldUsage where
  | unknown
  | declared (fields : FieldSets)
  deriving DecidableEq

namespace FieldUsage

/-- Reads nothing. -/
def nothing : FieldUsage := .declared .empty

/-- Adds fields of a record type. What was unknown is declared from here on. -/
def and (u : FieldUsage) (type : RecordType) (fields : List String) : FieldUsage :=
  match u with
  | .unknown => .declared (FieldSets.empty.add type.name fields)
  | .declared sets => .declared (sets.add type.name fields)

def declared? : FieldUsage → Option FieldSets
  | .unknown => none
  | .declared sets => some sets

end FieldUsage

end RecordFlow
