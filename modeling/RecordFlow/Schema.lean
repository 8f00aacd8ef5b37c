import RecordFlow.DataType.WellFormed

/-! Schemas: the columns of a record, each with a schema of its own where its type reaches a record.
Columns can be taken away at any depth; the declared type of a column stays what it was. -/

namespace RecordFlow

mutual

structure Schema where
  name : String
  columns : List Column

structure Column where
  name : String
  type : DataType
  nullable : Bool
  nested : Option Schema

end

/-! ### Equality -/

mutual

def Schema.same : Schema → Schema → Bool
  | ⟨m, cs⟩, ⟨n, ds⟩ => m == n && Column.sameAll cs ds

def Column.same : Column → Column → Bool
  | ⟨m, s, x, none⟩, ⟨n, t, y, none⟩ => m == n && s == t && x == y
  | ⟨m, s, x, some p⟩, ⟨n, t, y, some q⟩ => m == n && s == t && x == y && p.same q
  | _, _ => false

def Column.sameAll : List Column → List Column → Bool
  | [], [] => true
  | c :: cs, d :: ds => c.same d && Column.sameAll cs ds
  | _, _ => false

end

mutual

theorem Schema.same_iff : ∀ (s t : Schema), s.same t = true ↔ s = t
  | ⟨m, cs⟩, ⟨n, ds⟩ => by
    simp [Schema.same, Column.sameAll_iff cs ds]

theorem Column.same_iff : ∀ (c d : Column), c.same d = true ↔ c = d
  | ⟨m, s, x, none⟩, ⟨n, t, y, none⟩ => by simp [Column.same, and_assoc]
  | ⟨m, s, x, some p⟩, ⟨n, t, y, some q⟩ => by
    simp [Column.same, Schema.same_iff p q, and_assoc]
  | ⟨_, _, _, none⟩, ⟨_, _, _, some _⟩ => by simp [Column.same]
  | ⟨_, _, _, some _⟩, ⟨_, _, _, none⟩ => by simp [Column.same]

theorem Column.sameAll_iff : ∀ (cs ds : List Column), Column.sameAll cs ds = true ↔ cs = ds
  | [], [] => by simp [Column.sameAll]
  | [], _ :: _ => by simp [Column.sameAll]
  | _ :: _, [] => by simp [Column.sameAll]
  | c :: cs, d :: ds => by
    simp [Column.sameAll, Column.same_iff c d, Column.sameAll_iff cs ds]

end

instance : DecidableEq Schema := fun _ _ => decidable_of_iff _ (Schema.same_iff _ _)

instance : DecidableEq Column := fun _ _ => decidable_of_iff _ (Column.same_iff _ _)

/-! ### Derivation -/

mutual

/-- One column per field, in declared order. -/
def RecordType.schema : RecordType → Schema
  | ⟨name, fields⟩ => ⟨name, Field.columns fields⟩

def Field.columns : List Field → List Column
  | [] => []
  | ⟨name, type, nullable⟩ :: rest => ⟨name, type, nullable, type.schema?⟩ :: Field.columns rest

/-- The schema of the record type at the bottom of lists and sets. -/
def DataType.schema? : DataType → Option Schema
  | .struct type => some type.schema
  | .list item => item.schema?
  | .set item => item.schema?
  | _ => none

end

theorem DataType.schema?_eq (type : DataType) : type.schema? = type.record?.map RecordType.schema := by
  fun_induction DataType.record? type <;> simp_all [DataType.schema?]

namespace Schema

/-- The schema of a well-formed record type. -/
def ofRecordType (type : RecordType) : Except RecordType.Flaw Schema := do
  type.check
  return type.schema

def derive : DataType → Except RecordType.Flaw Schema
  | .struct type => ofRecordType type
  | type => .error (.notARecord type)

/-! ### Columns by name -/

def names (s : Schema) : List String := s.columns.map (·.name)

/-- The positions of columns by name, the last column first. The table is made when columns are set,
and not again when columns are changed in place, which leaves their names as they are
(`Restrictions.positions_updateColumns`). -/
def positions (s : Schema) : List (String × Nat) := s.names.zipIdx.reverse

/-- The position of the last column of a name. -/
def indexOf? (s : Schema) (name : String) : Option Nat := s.positions.lookup name

def contains (s : Schema) (name : String) : Bool := (s.indexOf? name).isSome

def find? (s : Schema) (name : String) : Option Column := do s.columns[← s.indexOf? name]?

/-- Keeps the columns that are named, in the order they have. -/
def retain (s : Schema) (names : List String) : Schema :=
  { s with columns := s.columns.filter (·.name ∈ names) }

end Schema

/-! ### Texts -/

def Column.text (c : Column) : String :=
  c.name ++ ": " ++ c.type.text ++
    match c.nested with
    | some nested => " [" ++ ", ".intercalate nested.names ++ "]"
    | none => ""

def Schema.text (s : Schema) : String :=
  s!"Schema {s.name}: {s.columns.length} columns\n" ++
    String.join (s.columns.map fun c => "  " ++ c.text ++ "\n")

/-! ### Serialized form -/

mutual

def Schema.toJson : Schema → Json
  | ⟨name, columns⟩ => .ofMembers [("name", .text name), ("columns", .list (Column.toJsonAll columns))]

def Column.toJson : Column → Json
  | ⟨name, type, nullable, nested⟩ => .ofMembers
    [("name", .text name), ("data_type", type.toJson), ("nullable", .bool nullable),
      ("nested", match nested with | some s => s.toJson | none => .null)]

def Column.toJsonAll : List Column → List Json
  | [] => []
  | c :: cs => c.toJson :: Column.toJsonAll cs

end

end RecordFlow
