import RecordFlow.Parquet.Feed

/-! Fields put together again from stripes. An assembly is laid out along the projected fields; each of
its leaves reads a feed of entries of its own, and every step takes what comes next there: the first
leaf of a field says whether the field is there and whether a list goes on. -/

namespace RecordFlow.Parquet

/-- What a leaf that is always there holds where no entry is left at all. -/
def Physical.zero : Physical → Cell
  | .boolean => .bool false
  | .int32 | .int64 => .int 0
  | .int96 => .int96 0 0 0
  | .float | .double => .float ⟨0⟩
  | .byteArray | .fixedLenByteArray => .bytes []

def Leaf.field (leaf : Leaf) (next? : Option Entry) : Field :=
  let present := leafField leaf.physical leaf.converted leaf.scale
  match next? with
  | some entry => present entry.value
  | none => if leaf.depth.definition = 0 then present leaf.physical.zero else .null

/-- How a field is read. The depths are those of the fields around what is read. -/
inductive Assembly where
  | leaf (name : String) (slot : Nat) (stored : Leaf)
  | optional (depth : Depth) (present : Assembly)
  | group (name : String) (fields : List Assembly)
  | list (name : String) (depth : Depth) (item : Assembly)
  | map (name : String) (depth : Depth) (key value : Assembly)

namespace Assembly

def name : Assembly → String
  | .leaf name _ _ => name
  | .optional _ present => present.name
  | .group name _ => name
  | .list name _ _ => name
  | .map name _ _ _ => name

mutual

/-- The slots of the leaves, in their order. -/
def slots : Assembly → List Nat
  | .leaf _ slot _ => [slot]
  | .optional _ present => present.slots
  | .group _ fields => slotsOfAll fields
  | .list _ _ item => item.slots
  | .map _ _ key value => key.slots ++ value.slots

def slotsOfAll : List Assembly → List Nat
  | [] => []
  | field :: rest => field.slots ++ slotsOfAll rest

end

/-- Reads occurrences for as long as the next entry goes on with them. -/
def collect {α : Type} (d : Depth) (slots : List Nat) (read : Feeds → α × Feeds) :
    Nat → Feeds → List α × Feeds
  | 0, s => ([], s)
  | fuel + 1, s =>
    if s.isThere d slots then
      let (item, s) := read s
      if s.goesOn d slots then
        let (items, s) := collect d slots read fuel s
        (item :: items, s)
      else ([item], s)
    else ([], s.advance slots)

mutual

/-- Reads one field. No list holds more items than `most`. -/
def read (most : Nat) : Assembly → Feeds → Field × Feeds
  | .leaf _ slot stored, s => (stored.field (s.next? slot), s.advance [slot])
  | .optional d present, s =>
    if s.isThere d present.slots then present.read most s else (.null, s.advance present.slots)
  | .group _ fields, s =>
    let (fields, s) := readAll most fields s
    (.group fields, s)
  | .list _ d item, s =>
    let (items, s) := collect d item.slots (item.read most) most s
    (.list items, s)
  | .map _ d key value, s =>
    let readEntry (s : Feeds) : (Field × Field) × Feeds :=
      let (k, s) := key.read most s
      let (v, s) := value.read most s
      ((k, v), s)
    let (entries, s) := collect d (key.slots ++ value.slots) readEntry most s
    (.map entries, s)

def readAll (most : Nat) : List Assembly → Feeds → List (String × Field) × Feeds
  | [], s => ([], s)
  | field :: rest, s =>
    let (first, s) := field.read most s
    let (others, s) := readAll most rest s
    ((field.name, first) :: others, s)

end

def readRows (most : Nat) (fields : List Assembly) : Nat → Feeds → List (List (String × Field))
  | 0, _ => []
  | rows + 1, s =>
    let (row, s) := readAll most fields s
    row :: readRows most fields rows s

end Assembly

/-! ### Layout -/

/-- What is laid out so far. -/
structure Layout where
  /-- The names from the field at hand up to the top-level field. -/
  path : List String := []
  feeds : Feeds := []

namespace Layout

def enter (name : String) : StateM Layout Unit :=
  modify fun l => { l with path := name :: l.path }

def leave : StateM Layout Unit :=
  modify fun l => { l with path := l.path.tail }

/-- What lies below a name. -/
def inside {α : Type} (name : String) (lay : StateM Layout α) : StateM Layout α := do
  enter name
  let a ← lay
  leave
  return a

/-- A slot for the last stripe of the path. -/
def leaf (found : List Stripe) (name : String) (fallback : Leaf) : StateM Layout Assembly := do
  let l ← get
  let stripe := (found.reverse.find? (·.leaf.path == l.path)).getD ⟨fallback, []⟩
  set { l with feeds := l.feeds ++ [Feed.ofStripe stripe] }
  return .leaf name l.feeds.length stripe.leaf

end Layout

/-- A field that may be absent is read only where it is there. -/
def Assembly.withRepetition (d : Depth) (repetition : Option Repetition) (a : Assembly) : Assembly :=
  if repetition = some .optional then .optional d a else a

/-- Whether the repeated field in a list is the element itself and not a wrapper of it. -/
def isElement : FileType → Bool
  | .leaf _ _ _ _ _ => true
  | .group name _ _ fields => fields.length != 1 || name == "array" || name.endsWith "_tuple"

mutual

/-- Lays out a field below a depth. A repeated group that is no collection makes a list of groups, and
both of them leave the path at the end, so that the fields after it are looked up one level higher. -/
def assemble (found : List Stripe) (d : Depth) : FileType → StateM Layout Assembly
  | .leaf name repetition physical converted scale =>
    let here := d.below repetition
    (Assembly.withRepetition d repetition) <$> Layout.inside name
      (Layout.leaf found name ⟨[name], here, physical, converted, scale⟩)
  | .group name repetition converted fields =>
    let here := d.below repetition
    (Assembly.withRepetition d repetition) <$> Layout.inside name
      (match converted, fields with
      | .list, [element] =>
        (Assembly.list name here) <$>
          (match element with
          | .group wrapper r c [child] =>
            if isElement (.group wrapper r c [child]) then
              assemble found here (.group wrapper r c [child])
            else Layout.inside wrapper (assemble found here.deeper child)
          | element => assemble found here element)
      | .map, [.group wrapper _ _ [key, value]]
      | .mapKeyValue, [.group wrapper _ _ [key, value]] => Layout.inside wrapper do
        let key ← assemble found here.deeper key
        let value ← assemble found here.deeper value
        return .map name here key value
      | _, fields => do
        let group := Assembly.group name (← assembleAll found here fields)
        if repetition = some .repeated then
          Layout.leave
          return .list name d group
        else return group)

def assembleAll (found : List Stripe) (d : Depth) :
    List FileType → StateM Layout (List Assembly)
  | [] => return []
  | field :: rest => do
    let first ← assemble found d field
    return first :: (← assembleAll found d rest)

end

end RecordFlow.Parquet
