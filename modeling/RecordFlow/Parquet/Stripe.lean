import RecordFlow.Parquet.Row

/-! Rows taken apart into stripes, one for each leaf of a file. An entry of a stripe keeps by two
levels where it belongs: how many of the fields above it are there, and which of the repeated ones it
goes on with. -/

namespace RecordFlow.Parquet

/-- How many of the fields from the root down to a field may be absent, and how many are repeated. -/
structure Depth where
  definition : Nat := 0
  repetition : Nat := 0
  deriving DecidableEq, Repr

namespace Depth

/-- Below a repeated field. -/
def deeper (d : Depth) : Depth := ⟨d.definition + 1, d.repetition + 1⟩

def below (d : Depth) : Option Repetition → Depth
  | some .optional => ⟨d.definition + 1, d.repetition⟩
  | some .repeated => d.deeper
  | _ => d

end Depth

structure Leaf where
  /-- The names from the leaf up to the top-level field. -/
  path : List String
  depth : Depth
  physical : Physical
  converted : Converted
  scale : Nat

mutual

def leaves (d : Depth) (above : List String) : FileType → List Leaf
  | .leaf name repetition physical converted scale =>
    [⟨name :: above, d.below repetition, physical, converted, scale⟩]
  | .group name repetition _ fields => leavesOfAll (d.below repetition) (name :: above) fields

def leavesOfAll (d : Depth) (above : List String) : List FileType → List Leaf
  | [] => []
  | field :: rest => leaves d above field ++ leavesOfAll d above rest

end

/-- One value of a leaf, or a place where there is none. -/
structure Entry where
  /-- The number of the repeated field on the path that goes on here, zero at the start of a row. -/
  repetition : Nat
  /-- How many of the fields on the path that may be absent are there. -/
  definition : Nat
  value : Cell

/-- Entries one after the other, leaf by leaf. -/
def joinEntries (width : Nat) (parts : List (List (List Entry))) : List (List Entry) :=
  parts.foldr (List.zipWith (· ++ ·)) (List.replicate width [])

/-- The entries of a field at a depth, of which `entries` gives those of one occurrence. A field that
is not there leaves one entry in each of its leaves. -/
def entriesOf (d : Depth) (repetition : Option Repetition) (width : Nat)
    (entries : Nat → Cell → List (List Entry)) (first : Nat) (cell : Cell) : List (List Entry) :=
  let absent := List.replicate width [⟨first, d.definition, .null⟩]
  match repetition, cell with
  | some .repeated, .repeated [] => absent
  | some .repeated, .repeated (item :: items) =>
    joinEntries width (entries first item :: items.map (entries (d.repetition + 1)))
  | some .optional, .null => absent
  | _, cell => entries first cell

mutual

/-- The entries that a cell leaves in each leaf, the first of them with the level `first`. -/
def shred (d : Depth) (first : Nat) : FileType → Cell → List (List Entry)
  | .leaf _ repetition _ _ _, cell =>
    entriesOf d repetition 1
      (fun first cell => [[⟨first, (d.below repetition).definition, cell⟩]]) first cell
  | .group _ repetition _ fields, cell =>
    entriesOf d repetition (leavesOfAll d [] fields).length
      (fun first cell => shredFields (d.below repetition) first fields cell.cells) first cell

def shredFields (d : Depth) (first : Nat) : List FileType → List Cell → List (List Entry)
  | [], _ => []
  | field :: rest, cells =>
    shred d first field (cells.headD .null) ++ shredFields d first rest cells.tail

end

structure Stripe where
  leaf : Leaf
  entries : List Entry

/-- The stripes of the rows of a row group. -/
def stripes (fields : List FileType) (rows : List (List Cell)) : List Stripe :=
  let found := leavesOfAll {} [] fields
  List.zipWith Stripe.mk found (joinEntries found.length (rows.map (shredFields {} 0 fields)))

end RecordFlow.Parquet
