import Mathlib.Data.List.Basic
import RecordFlow.Csv.Reader
import RecordFlow.Proofs.Evaluation

/-! Reading a source in batches. One call takes rows up to its size, up to a row that cannot be
read, or up to the end; main statement: which sizes are asked for cannot be told from the records,
and the reader counts what it delivers. -/

namespace RecordFlow

deriving instance DecidableEq for Reader

namespace Reader

/-- What a call gives: the records of a batch, or none at the end of the source. -/
abbrev Result := Except ReadError (Option (List Record))

/-- The reader after calls of the given sizes, those that fail included. -/
def after (r : Reader) (sizes : List Nat) : Reader :=
  sizes.foldl (fun r max => (r.nextBatch max).2) r

/-- What calls of the given sizes give, one after the other. -/
def results (r : Reader) : List Nat → List Result
  | [] => []
  | max :: sizes => (r.nextBatch max).1 :: (r.nextBatch max).2.results sizes

/-- The records that a call delivers. -/
def delivered : Result → List Record
  | .ok (some records) => records
  | _ => []

/-- Nothing was read so far. -/
structure Fresh (r : Reader) : Prop where
  unmet : r.exhausted = false
  unread : r.rowsRead = 0

@[simp] theorem results_cons (r : Reader) (max : Nat) (sizes : List Nat) :
    r.results (max :: sizes) = (r.nextBatch max).1 :: (r.nextBatch max).2.results sizes := rfl

@[simp] theorem after_cons (r : Reader) (max : Nat) (sizes : List Nat) :
    r.after (max :: sizes) = (r.nextBatch max).2.after sizes := rfl

theorem after_append (r : Reader) (sizes more : List Nat) :
    r.after (sizes ++ more) = (r.after sizes).after more :=
  List.foldl_append

variable {r next : Reader} {max : Nat} {result : Result} {records : List Record}

/-! ### One call -/

/-- What taking rows comes to: as many as asked for, all that are left, or a row that cannot be
read. -/
inductive Takes (max : Nat) (rows : List (Except ReadError Record)) :
    Except ReadError (List Record × Bool) × List (Except ReadError Record) → Prop
  | full (records : List Record) (rest : List (Except ReadError Record))
      (split : rows = records.map .ok ++ rest) (length : records.length = max) :
      Takes max rows (.ok (records, false), rest)
  | ended (records : List Record) (all : rows = records.map .ok) (short : records.length < max) :
      Takes max rows (.ok (records, true), [])
  | fails (before : List Record) (e : ReadError) (rest : List (Except ReadError Record))
      (split : rows = before.map .ok ++ .error e :: rest) (short : before.length < max) :
      Takes max rows (.error e, rest)

theorem take_takes (max : Nat) (rows : List (Except ReadError Record)) :
    Takes max rows (take max rows) := by
  induction max generalizing rows with
  | zero => exact .full [] rows rfl rfl
  | succ max ih =>
    match rows with
    | [] => exact .ended [] rfl (Nat.succ_pos max)
    | .error e :: rows => exact .fails [] e rows rfl (Nat.succ_pos max)
    | .ok record :: rows =>
      have later := ih rows
      rw [take]
      rcases h : take max rows with ⟨taken, left⟩
      rw [h] at later
      cases later with
      | full records rest split length =>
        exact .full (record :: records) _ (congrArg _ split) (congrArg _ length)
      | ended records all short =>
        exact .ended (record :: records) (congrArg _ all) (Nat.succ_lt_succ short)
      | fails before e rest split short =>
        exact .fails (record :: before) e _ (congrArg _ split) (Nat.succ_lt_succ short)

/-- What one call gives and what it leaves. -/
inductive Gives (r : Reader) (max : Nat) : Result → Reader → Prop
  | finished (met : r.exhausted = true) : Gives r max (.ok none) r
  | fails (unmet : r.exhausted = false) (before : List Record) (e : ReadError)
      (rest : List (Except ReadError Record)) (split : r.rows = before.map .ok ++ .error e :: rest)
      (short : before.length < max) : Gives r max (.error e) ⟨rest, false, r.rowsRead⟩
  | full (unmet : r.exhausted = false) (records : List Record)
      (rest : List (Except ReadError Record)) (split : r.rows = records.map .ok ++ rest)
      (length : records.length = max) :
      Gives r max (.ok (some records)) ⟨rest, false, r.rowsRead + records.length⟩
  | last (unmet : r.exhausted = false) (records : List Record) (all : r.rows = records.map .ok)
      (short : records.length < max) (filled : records ≠ []) :
      Gives r max (.ok (some records)) ⟨[], true, r.rowsRead + records.length⟩
  | ends (unmet : r.exhausted = false) (empty : r.rows = []) (positive : 0 < max) :
      Gives r max (.ok none) ⟨[], true, r.rowsRead⟩

theorem nextBatch_gives (r : Reader) (max : Nat) :
    Gives r max (r.nextBatch max).1 (r.nextBatch max).2 := by
  unfold nextBatch
  split
  · next met => exact .finished met
  · next unmet =>
    have unmet : r.exhausted = false := by simpa using unmet
    have taken := take_takes max r.rows
    rcases h : take max r.rows with ⟨result, left⟩
    rw [h] at taken
    cases taken with
    | full records rest split length =>
      simp only [Bool.and_false, Bool.false_eq_true, if_false]
      exact .full unmet records _ split length
    | ended records all short =>
      cases records with
      | nil => exact .ends unmet all short
      | cons record records => exact .last unmet _ all short (List.cons_ne_nil _ _)
    | fails before e rest split short =>
      simp only [unmet]
      exact .fails unmet before e _ split short

theorem Gives.rowsRead (h : Gives r max result next) :
    next.rowsRead = r.rowsRead + (delivered result).length := by
  cases h <;> rfl

theorem Gives.exhausted_of_none (h : Gives r max (.ok none) next) : next.exhausted = true := by
  cases h with
  | finished met => exact met
  | ends => rfl

/-- A batch is as large as asked for unless the end was met. -/
theorem Gives.length_of_unmet (h : Gives r max (.ok (some records)) next)
    (unmet : next.exhausted = false) : records.length = max := by
  cases h with
  | full _ _ _ _ length => exact length
  | last => cases unmet

/-! ### All calls -/

theorem nextBatch_of_exhausted (met : r.exhausted = true) (max : Nat) :
    r.nextBatch max = (.ok none, r) := by
  simp [nextBatch, met]

/-- Once the end was met, it is met by every call. -/
theorem results_of_exhausted (met : r.exhausted = true) (sizes : List Nat) :
    r.results sizes = List.replicate sizes.length (.ok none) := by
  induction sizes with
  | nil => rfl
  | cons max sizes ih =>
    rw [results_cons, nextBatch_of_exhausted met, ih, List.length_cons, List.replicate_succ]

theorem rowsRead_after (r : Reader) (sizes : List Nat) :
    (r.after sizes).rowsRead = r.rowsRead + ((r.results sizes).flatMap delivered).length := by
  induction sizes generalizing r with
  | nil => rfl
  | cons max sizes ih =>
    rw [after_cons, ih, (nextBatch_gives r max).rowsRead, results_cons, List.flatMap_cons,
      List.length_append, Nat.add_assoc]

/-- After the end there is nothing but the end. -/
theorem results_finished {sizes : List Nat} {i j : Nat} (lt : i < j)
    (here : (r.results sizes)[i]? = some (.ok none)) (later : (r.results sizes)[j]? = some result) :
    result = .ok none := by
  induction sizes generalizing r i j with
  | nil => cases later
  | cons max sizes ih =>
    obtain ⟨j, rfl⟩ := Nat.exists_eq_add_one_of_ne_zero (Nat.ne_of_gt (Nat.zero_lt_of_lt lt))
    rw [results_cons, List.getElem?_cons_succ] at later
    cases i with
    | zero =>
      have given : (r.nextBatch max).1 = .ok none := Option.some.inj here
      have gives := nextBatch_gives r max
      rw [given] at gives
      rw [results_of_exhausted gives.exhausted_of_none] at later
      exact List.eq_of_mem_replicate (List.mem_of_getElem? later)
    | succ i =>
      rw [results_cons, List.getElem?_cons_succ] at here
      exact ih (Nat.lt_of_succ_lt_succ lt) here later

/-- Every batch but the last is as large as asked for. -/
theorem results_full {sizes : List Nat} {i j : Nat} {batch later : List Record} (lt : i < j)
    (here : (r.results sizes)[i]? = some (.ok (some batch)))
    (there : (r.results sizes)[j]? = some (.ok (some later))) : sizes[i]? = some batch.length := by
  induction sizes generalizing r i j with
  | nil => cases there
  | cons max sizes ih =>
    obtain ⟨j, rfl⟩ := Nat.exists_eq_add_one_of_ne_zero (Nat.ne_of_gt (Nat.zero_lt_of_lt lt))
    rw [results_cons, List.getElem?_cons_succ] at there
    cases i with
    | zero =>
      have given : (r.nextBatch max).1 = .ok (some batch) := Option.some.inj here
      have gives := nextBatch_gives r max
      rw [given] at gives
      cases met : (r.nextBatch max).2.exhausted with
      | false => rw [gives.length_of_unmet met, List.getElem?_cons_zero]
      | true =>
        rw [results_of_exhausted met] at there
        cases List.eq_of_mem_replicate (List.mem_of_getElem? there)
    | succ i =>
      rw [results_cons, List.getElem?_cons_succ] at here
      exact ih (Nat.lt_of_succ_lt_succ lt) here there

/-! ### Rows that can all be read -/

/-- The records that are left, all of which can be read. -/
structure Holds (r : Reader) (records : List Record) : Prop where
  rows : r.rows = records.map .ok
  finished : r.exhausted = true → records = []

theorem not_fails {before : List Record} {e : ReadError} {rest : List (Except ReadError Record)} :
    records.map .ok ≠ before.map .ok ++ .error e :: rest := by
  intro same
  have mem : .error e ∈ records.map (.ok : Record → Except ReadError Record) :=
    same ▸ List.mem_append_right _ (List.mem_cons_self ..)
  obtain ⟨_, -, h⟩ := List.mem_map.mp mem
  cases h

/-- A call takes its records off those that are left, and some of them unless none are. -/
theorem Gives.holds (h : Gives r max result next) (holds : r.Holds records) :
    ∃ rest, next.Holds rest ∧ records = delivered result ++ rest ∧ (∃ batch, result = .ok batch) ∧
      (result = .ok none → rest = []) ∧
      (0 < max → result = .ok none ∨ rest.length < records.length) := by
  obtain ⟨rows, finished⟩ := holds
  cases h with
  | finished met =>
    exact ⟨[], ⟨by rw [rows, finished met], fun _ => rfl⟩, finished met, ⟨_, rfl⟩, fun _ => rfl,
      fun _ => .inl rfl⟩
  | fails _ before e rest split => exact absurd (rows.symm.trans split) not_fails
  | full _ batch rest split length =>
    obtain ⟨front, back, rfl, hfront, hback⟩ := List.map_eq_append_iff.mp (rows.symm.trans split)
    cases (List.map_inj_right fun _ _ => Except.ok.inj).mp hfront
    refine ⟨back, ⟨hback.symm, nofun⟩, rfl, ⟨_, rfl⟩, nofun, fun positive => .inr ?_⟩
    rw [List.length_append]
    omega
  | last _ batch all _ filled =>
    cases (List.map_inj_right fun _ _ => Except.ok.inj).mp (rows.symm.trans all)
    refine ⟨[], ⟨rfl, fun _ => rfl⟩, (List.append_nil _).symm, ⟨_, rfl⟩, nofun, fun _ => .inr ?_⟩
    exact List.length_pos_iff.mpr filled
  | ends _ empty =>
    have gone : records = [] := List.map_eq_nil_iff.mp (rows.symm.trans empty)
    exact ⟨[], ⟨rfl, fun _ => rfl⟩, gone, ⟨_, rfl⟩, fun _ => rfl, fun _ => .inl rfl⟩

theorem Holds.results (holds : r.Holds records) (sizes : List Nat) :
    ∃ rest, (r.after sizes).Holds rest ∧ records = (r.results sizes).flatMap delivered ++ rest ∧
      (∀ result ∈ r.results sizes, ∃ batch, result = .ok batch) ∧
      (.ok none ∈ r.results sizes → rest = []) := by
  induction sizes generalizing r records with
  | nil => exact ⟨records, holds, rfl, nofun, nofun⟩
  | cons max sizes ih =>
    obtain ⟨rest, held, rfl, good, none, -⟩ := (nextBatch_gives r max).holds holds
    obtain ⟨left, kept, rfl, allGood, ended⟩ := ih held
    refine ⟨left, kept, ?_, ?_, fun mem => ?_⟩
    · rw [results_cons, List.flatMap_cons, List.append_assoc]
    · exact List.forall_mem_cons.mpr ⟨good, allGood⟩
    · rcases List.mem_cons.mp mem with here | later
      · exact (List.append_eq_nil_iff.mp (none here.symm)).2
      · exact ended later

/-- The end is met once there were more calls than records. -/
theorem Holds.ends (holds : r.Holds records) {sizes : List Nat} (positive : ∀ max ∈ sizes, 0 < max)
    (enough : records.length < sizes.length) : .ok none ∈ r.results sizes := by
  induction sizes generalizing r records with
  | nil => cases enough
  | cons max sizes ih =>
    obtain ⟨here, later⟩ := List.forall_mem_cons.mp positive
    obtain ⟨rest, held, -, -, -, fewer⟩ := (nextBatch_gives r max).holds holds
    rw [results_cons]
    rcases fewer here with none | fewer
    · rw [none]
      exact List.mem_cons_self ..
    · rw [List.length_cons] at enough
      exact List.mem_cons_of_mem _ (ih held later (by omega))

/-! ### All at once -/

/-- Reading all is reading batches of one size. -/
theorem exists_readAll_eq (r : Reader) :
    ∃ n, r.readAll.2 = r.after (List.replicate n batchSize) := by
  suffices loop : ∀ fuel r, ∃ n, (readBatches fuel r).2 = r.after (List.replicate n batchSize) from
    loop _ r
  intro fuel
  induction fuel with
  | zero => exact fun r => ⟨0, rfl⟩
  | succ fuel ih =>
    intro r
    have once (k : Nat) : r.after (List.replicate (k + 1) batchSize) =
        (r.nextBatch batchSize).2.after (List.replicate k batchSize) := rfl
    rw [readBatches]
    split
    · next h => exact ⟨1, by rw [once, h]; rfl⟩
    · next h => exact ⟨1, by rw [once, h]; rfl⟩
    · next records next h =>
      obtain ⟨n, hn⟩ := ih next
      refine ⟨n + 1, ?_⟩
      rw [once, h, ← hn]
      split <;> next same => rw [same]

theorem mapM_append (records : List Record) (rest : List (Except ReadError Record)) :
    (records.map Except.ok ++ rest).mapM id = (rest.mapM id).map (records ++ ·) := by
  induction records with
  | nil => cases h : rest.mapM id <;> simp [h, Except.map]
  | cons record records ih =>
    rw [List.map_cons, List.cons_append, List.mapM_cons, ih]
    cases rest.mapM id <;> rfl

theorem mapM_ok (records : List Record) :
    (records.map fun r => (.ok r : Except ReadError Record)).mapM id = .ok records := by
  have := mapM_append records []
  rw [List.append_nil] at this
  exact this.trans (congrArg Except.ok (List.append_nil records))

theorem mapM_fails (before : List Record) (e : ReadError) (rest : List (Except ReadError Record)) :
    (before.map Except.ok ++ (.error e : Except ReadError Record) :: rest).mapM id = .error e :=
  mapM_append before (.error e :: rest)

/-- Rows can all be read, or there is a first that cannot. -/
theorem all_read_or_first_fails (rows : List (Except ReadError Record)) :
    (∃ records : List Record, rows = records.map .ok) ∨
      ∃ (before : List Record) (e : ReadError) (rest : List (Except ReadError Record)),
        rows = before.map .ok ++ .error e :: rest := by
  induction rows with
  | nil => exact .inl ⟨[], rfl⟩
  | cons row rows ih =>
    cases row with
    | error e => exact .inr ⟨[], e, rows, rfl⟩
    | ok record =>
      rcases ih with ⟨records, rfl⟩ | ⟨before, e, rest, rfl⟩
      · exact .inl ⟨record :: records, rfl⟩
      · exact .inr ⟨record :: before, e, rest, rfl⟩

theorem readBatches_of_exhausted (met : r.exhausted = true) (fuel : Nat) :
    readBatches fuel r = (.ok [], r) := by
  cases fuel with
  | zero => rfl
  | succ fuel => rw [readBatches, nextBatch_of_exhausted met]

/-- The loop reads row after row as long as there is one call for each, and two for the end. -/
theorem readBatches_eq {fuel : Nat} (unmet : r.exhausted = false)
    (enough : r.rows.length + 1 < fuel) : (readBatches fuel r).1 = r.rows.mapM id := by
  induction fuel generalizing r with
  | zero => cases enough
  | succ fuel ih =>
    have gives := nextBatch_gives r batchSize
    rcases h : r.nextBatch batchSize with ⟨result, next⟩
    rw [h] at gives
    rw [readBatches, h]
    cases gives with
    | finished met => cases unmet.symm.trans met
    | fails _ before e rest split => rw [split, mapM_fails]
    | ends _ empty => rw [empty]; rfl
    | full _ records rest split length =>
      have size : 0 < batchSize := by decide
      have fewer : rest.length + 1 < fuel := by
        rw [split, List.length_append, List.length_map] at enough
        omega
      have later := @ih ⟨rest, false, r.rowsRead + records.length⟩ rfl fewer
      rw [split, mapM_append, ← later]
      dsimp only
      split <;> next same => rw [same]; rfl
    | last _ records all =>
      rw [all, mapM_ok]
      dsimp only
      rw [readBatches_of_exhausted rfl]
      exact congrArg _ (List.append_nil records)

/-- All that is left of a source is read row by row, whatever the size of the batches is. -/
theorem readAll_eq (unmet : r.exhausted = false) : r.readAll.1 = r.rows.mapM id :=
  readBatches_eq unmet (Nat.lt_succ_self _)

/-! ### Batches of any sizes -/

/-- Calls of the given sizes deliver a source as a whole, in order and without gaps. -/
structure Seamless (r : Reader) (sizes : List Nat) : Prop where
  succeeds : ∀ result ∈ r.results sizes, ∃ batch, result = .ok batch
  ends : r.rows.length < sizes.length → .ok none ∈ r.results sizes
  whole : .ok none ∈ r.results sizes → r.readAll.1 = .ok ((r.results sizes).flatMap delivered)
  full : ∀ (i j : Nat) (batch later : List Record), i < j →
    (r.results sizes)[i]? = some (.ok (some batch)) →
    (r.results sizes)[j]? = some (.ok (some later)) → sizes[i]? = some batch.length
  finished : ∀ (i j : Nat) (result : Result), i < j → (r.results sizes)[i]? = some (.ok none) →
    (r.results sizes)[j]? = some result → result = .ok none

theorem Holds.seamless (holds : r.Holds records) (unmet : r.exhausted = false) {sizes : List Nat}
    (positive : ∀ max ∈ sizes, 0 < max) : r.Seamless sizes := by
  obtain ⟨rest, -, split, succeeds, ended⟩ := holds.results sizes
  refine ⟨succeeds, fun enough => holds.ends positive ?_, fun none => ?_,
    fun _ _ _ _ => results_full, fun _ _ _ => results_finished⟩
  · rwa [holds.rows, List.length_map] at enough
  · rw [readAll_eq unmet, holds.rows, mapM_ok, split, ended none, List.append_nil]

/-- If all rows can be read, batches of any positive sizes deliver the source as a whole; reading
all of it fails just with the first row that cannot be read; and after any calls the reader has counted
the records delivered, reading all being calls as well. -/
theorem batches_seamless (fresh : r.Fresh) :
    (∀ (records : List Record) sizes, r.rows = records.map .ok → (∀ max ∈ sizes, 0 < max) →
        r.Seamless sizes) ∧
      (∀ e, r.readAll.1 = .error e ↔
        ∃ (before : List Record) (rest : List (Except ReadError Record)),
          r.rows = before.map .ok ++ .error e :: rest) ∧
      ∀ sizes, (r.after sizes).rowsRead = ((r.results sizes).flatMap delivered).length ∧
        ∃ n, (r.after sizes).readAll.2 = r.after (sizes ++ List.replicate n batchSize) := by
  refine ⟨fun records sizes rows positive => ?_, fun e => ⟨fun h => ?_, ?_⟩, fun sizes => ⟨?_, ?_⟩⟩
  · have holds : r.Holds records := ⟨rows, fun met => nomatch fresh.unmet.symm.trans met⟩
    exact holds.seamless fresh.unmet positive
  · rw [readAll_eq fresh.unmet] at h
    rcases all_read_or_first_fails r.rows with ⟨records, rows⟩ | ⟨before, e', rest, rows⟩
    · rw [rows, mapM_ok] at h
      cases h
    · rw [rows, mapM_fails] at h
      cases h
      exact ⟨before, rest, rows⟩
  · rintro ⟨before, rest, rows⟩
    rw [readAll_eq fresh.unmet, rows, mapM_fails]
  · rw [rowsRead_after, fresh.unread, Nat.zero_add]
  · obtain ⟨n, hn⟩ := exists_readAll_eq (r.after sizes)
    exact ⟨n, by rw [hn, after_append]⟩

end Reader

namespace Csv

/-- Nothing is read of a text before its records. -/
theorem readerOf_fresh {d : Dialect} {schema : Schema} {names : List String}
    {rows : List (List Bytes)} {r : Reader} (h : readerOf d schema names rows = .ok r) :
    r.Fresh := by
  obtain ⟨p, -, h⟩ := exists_of_bind_ok h
  cases h
  exact ⟨rfl, rfl⟩

theorem openText_fresh {d : Dialect} {schema : Schema} {text : Bytes} {r : Reader}
    (h : openText d schema text = .ok r) : r.Fresh := by
  unfold openText at h
  split at h
  · obtain ⟨names, -, h⟩ := exists_of_bind_ok h
    exact readerOf_fresh h
  · exact readerOf_fresh h

def reading : RecordType := ⟨"reading", [⟨"level", .int64, true⟩]⟩

def level (n : Int64) : Record := ⟨[("level", .int n)]⟩

def levels : Bytes := "level\n1\n2\n3\n".toUTF8.toList

def levelReader : Reader := { rows := [level 1, level 2, level 3].map .ok }

/-- The second batch takes the last row without meeting the end, which is a call of its own. -/
theorem levels_seamless :
    openText {} reading.schema levels = .ok levelReader ∧ levelReader.Fresh ∧
      levelReader.rows = [level 1, level 2, level 3].map .ok ∧ (∀ max ∈ [2, 1, 4], 0 < max) ∧
      levelReader.results [2, 1, 4] =
        [.ok (some [level 1, level 2]), .ok (some [level 3]), .ok none] ∧
      levelReader.Seamless [2, 1, 4] ∧
      levelReader.readAll.1 = .ok [level 1, level 2, level 3] ∧
      (levelReader.after [2, 1, 4]).rowsRead = 3 := by
  have opened : openText {} reading.schema levels = .ok levelReader := by decide +kernel
  have fresh := openText_fresh opened
  have positive : ∀ max ∈ [2, 1, 4], 0 < max := by decide
  have given : levelReader.results [2, 1, 4] =
      [.ok (some [level 1, level 2]), .ok (some [level 3]), .ok none] := rfl
  obtain ⟨whole, -, counted⟩ := Reader.batches_seamless fresh
  have seamless := whole [level 1, level 2, level 3] [2, 1, 4] rfl positive
  have ended : .ok none ∈ levelReader.results [2, 1, 4] := given ▸ by simp
  exact ⟨opened, fresh, rfl, positive, given, seamless, seamless.whole ended,
    (counted [2, 1, 4]).1⟩

/-- A row that cannot be read takes the row before it in its batch along; neither is counted. -/
example : let r : Reader := { rows := [.ok (level 1), .error .csv, .ok (level 2)] }
    r.results [2, 2, 2] = [.error .csv, .ok (some [level 2]), .ok none] ∧
      (r.after [2, 2, 2]).rowsRead = 1 := ⟨rfl, rfl⟩

end Csv

end RecordFlow
