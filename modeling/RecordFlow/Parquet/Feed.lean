import RecordFlow.Parquet.Stripe

/-! What is left to read of stripes. The entries of a stripe are read in blocks, each of them written
over the one before it. Behind a last block that is shorter the earlier ones still show, which matters
to a field that reads on past the end of its stripe. -/

namespace RecordFlow.Parquet

/-- What is left to read of one stripe. -/
structure Feed where
  ahead : List Entry := []
  /-- What shows past the end. -/
  leftover : List Entry := []

namespace Feed

/-- How many entries a block holds, and how many rows it may end. -/
def blockSize : Nat := 1024

/-- How many of the entries ahead the next block takes. A row ends where the next one starts, and so a
block that finds a row open has room for the start of one row fewer. -/
def blockLength (rowOpen : Bool) (entries : List Entry) : Nat :=
  let starts := ((entries.take blockSize).filter (·.repetition == 0)).length
  if rowOpen && starts == blockSize then blockSize - 1 else blockSize

theorem blockLength_pos (rowOpen : Bool) (entries : List Entry) :
    0 < blockLength rowOpen entries := by
  simp only [blockLength]
  split <;> decide

/-- What shows behind the last block, if there stands `behind` before the entries are read. A block
that is full leaves its last row open where rows take several entries. -/
def behindLast (repeats rowOpen : Bool) (behind entries : List Entry) : List Entry :=
  let length := blockLength rowOpen entries
  if entries.length ≤ length then behind.drop entries.length
  else
    behindLast repeats (repeats && length == blockSize)
      (entries.take length ++ behind.drop length) (entries.drop length)
termination_by entries.length
decreasing_by
  have := blockLength_pos rowOpen entries
  simp only [List.length_drop]
  omega

/-- A stripe from its start. -/
def ofStripe (stripe : Stripe) : Feed where
  ahead := stripe.entries
  leftover := behindLast (stripe.leaf.depth.repetition != 0) false [] stripe.entries

def next? (feed : Feed) : Option Entry := feed.ahead.head?.or feed.leftover.head?

def advance (feed : Feed) : Feed :=
  match feed.ahead with
  | [] => { feed with leftover := feed.leftover.tail }
  | _ :: rest => { feed with ahead := rest }

end Feed

/-- What is left to read, by the slots of the leaves. -/
abbrev Feeds := List Feed

namespace Feeds

def next? (s : Feeds) (slot : Nat) : Option Entry := s[slot]?.bind Feed.next?

/-- Passes over one entry in each slot. -/
def advance (s : Feeds) (slots : List Nat) : Feeds :=
  slots.foldl (fun s slot => s.modify slot Feed.advance) s

/-- Whether the next entry in the first slot has something below a depth. -/
def isThere (s : Feeds) (d : Depth) (slots : List Nat) : Bool :=
  ((slots.head?.bind s.next?).map fun entry => decide (d.definition < entry.definition)).getD false

/-- Whether the next entry in the first slot is a further occurrence of a repeated field below a depth;
past the end nothing goes on. -/
def goesOn (s : Feeds) (d : Depth) (slots : List Nat) : Bool :=
  let next? := slots.head?.bind (s[·]?) |>.bind (·.ahead.head?)
  (next?.map fun entry => decide (d.repetition < entry.repetition)).getD false

end Feeds

end RecordFlow.Parquet
