import RecordFlow.Error

/-! Readers give the records of a source in batches. A row that cannot be read fails its batch: the
rows before it in the batch are lost, and reading goes on after it. -/

namespace RecordFlow

structure Reader where
  /-- What is left of the source, row by row. -/
  rows : List (Except ReadError Record)
  /-- Whether the end of the source was met. -/
  exhausted : Bool := false
  /-- The records delivered so far. -/
  rowsRead : Nat := 0

namespace Reader

/-- At most `max` rows, whether the end was met before that many, and what is left. -/
def take : Nat → List (Except ReadError Record) →
    Except ReadError (List Record × Bool) × List (Except ReadError Record)
  | 0, rows => (.ok ([], false), rows)
  | _ + 1, [] => (.ok ([], true), [])
  | _ + 1, .error e :: rows => (.error e, rows)
  | max + 1, .ok record :: rows =>
    match take max rows with
    | (.ok (records, ended), rest) => (.ok (record :: records, ended), rest)
    | (.error e, rest) => (.error e, rest)

/-- The next batch, none at the end of the source. -/
def nextBatch (r : Reader) (max : Nat) : Except ReadError (Option (List Record)) × Reader :=
  if r.exhausted then (.ok none, r)
  else
    match take max r.rows with
    | (.error e, rest) => (.error e, { r with rows := rest })
    | (.ok (records, ended), rest) =>
      (.ok (if records.isEmpty && ended then none else some records),
        ⟨rest, ended, r.rowsRead + records.length⟩)

def batchSize : Nat := 8192

/-- Batches until the end. A failure loses the batches before it. -/
def readBatches : Nat → Reader → Except ReadError (List Record) × Reader
  | 0, r => (.ok [], r)
  | fuel + 1, r =>
    match r.nextBatch batchSize with
    | (.error e, r) => (.error e, r)
    | (.ok none, r) => (.ok [], r)
    | (.ok (some records), r) =>
      match readBatches fuel r with
      | (.ok more, r) => (.ok (records ++ more), r)
      | (.error e, r) => (.error e, r)

/-- All that is left. Every batch but the last two takes a row. -/
def readAll (r : Reader) : Except ReadError (List Record) × Reader :=
  readBatches (r.rows.length + 2) r

end Reader

end RecordFlow
