import RecordFlow.Memory.Grouping
import RecordFlow.Proofs.Aggregation
import RecordFlow.Proofs.Evaluation
import RecordFlow.Proofs.Memory.Accumulator

/-! Aggregation as partition, then reduction: rows are parted by their keys, and every part is reduced
field by field. Main statement: the single pass over the records makes the same result, and fails on
the first record whose aggregation does not fit. -/

namespace RecordFlow.Memory

open Aggregation (Layout)
open Aggregation.Layout (Fits Misfit isKey)

variable {builder : Record → Aggregation} {layout : Layout}

/-- The keys of the groups: those of the rows in order of first appearance, and the empty one where
the layout has no keys. -/
def groupKeys (layout : Layout) (rows : List (List Value)) : List (List Value) :=
  if layout.entries.any isKey then (rows.map (keysOf layout)).eraseDups else [[]]

/-- The rows of a group. -/
def groupRows (layout : Layout) (rows : List (List Value)) (keys : List Value) :
    List (List Value) :=
  rows.filter (keysOf layout · = keys)

/-- The rows that a function makes of records. -/
def rowsOf (builder : Record → Aggregation) (records : List Record) : List (List Value) :=
  records.map fun r => (builder r).values

/-- The values of rows at a position. -/
def column (rows : List (List Value)) (i : Nat) : List Value := rows.map (·.getD i .null)

/-- Of the keys of a group the one at a position of the layout: as many stand before it as there are
key entries before the position. -/
def keyAt (layout : Layout) (keys : List Value) (i : Nat) : Value :=
  keys.getD ((layout.entries.take i).countP isKey) .null

/-- The record of a group: at every field what its kind makes of the values of the group there. -/
def groupRecord (layout : Layout) (keys : List Value) (rows : List (List Value)) : Record :=
  ⟨layout.entries.mapIdx fun i entry =>
    (entry.2, Accumulator.ofColumn entry.1 (keyAt layout keys i) (column rows i))⟩

/-! ### Keys -/

theorem keysOf_of_unkeyed (unkeyed : layout.entries.any isKey = false) (values : List Value) :
    keysOf layout values = [] := by
  rw [keysOf, List.map_eq_nil_iff, List.filter_eq_nil_iff]
  exact fun pair h => by simpa using List.any_eq_false.mp unkeyed pair.1 (List.of_mem_zip h).1

/-- The key of a row at a key entry is its value there. -/
theorem keyAt_keysOf {values : List Value} (length : values.length = layout.entries.length) {i : Nat}
    {entry : AggregationKind × String} (at_i : layout.entries[i]? = some entry)
    (isKey : isKey entry = true) : keyAt layout (keysOf layout values) i = values.getD i .null := by
  obtain ⟨entries⟩ := layout
  unfold keyAt keysOf at *
  dsimp only at *
  induction entries generalizing values i with
  | nil => cases at_i
  | cons first rest ih =>
    rcases values with _ | ⟨v, values⟩
    · cases length
    · cases i with
      | zero =>
        cases at_i
        simp [isKey]
      | succ i =>
        have tail := ih (Nat.succ.inj length) at_i
        rw [List.getD_cons_succ, ← tail, List.take_succ_cons, List.zip_cons_cons, List.filter_cons,
          List.countP_cons]
        cases Layout.isKey first <;> rfl

/-- Rows have the same keys just if they have the same value at every key entry. -/
theorem keysOf_eq_iff {values values' : List Value}
    (length : values.length = layout.entries.length)
    (length' : values'.length = layout.entries.length) :
    keysOf layout values = keysOf layout values' ↔
      ∀ i entry, layout.entries[i]? = some entry → isKey entry = true →
        values.getD i .null = values'.getD i .null := by
  constructor
  · intro same i entry at_i isKey
    rw [← keyAt_keysOf length at_i isKey, ← keyAt_keysOf length' at_i isKey, same]
  · intro same
    obtain ⟨entries⟩ := layout
    unfold keysOf
    induction entries generalizing values values' with
    | nil => rfl
    | cons first rest ih =>
      rcases values with _ | ⟨v, values⟩
      · cases length
      rcases values' with _ | ⟨v', values'⟩
      · cases length'
      have later := ih (Nat.succ.inj length) (Nat.succ.inj length') fun i => same (i + 1)
      rw [List.zip_cons_cons, List.zip_cons_cons, List.filter_cons, List.filter_cons]
      cases key : Layout.isKey first with
      | false => exact later
      | true => exact congrArg₂ List.cons (same 0 first rfl key) later

theorem groupKeys_concat (rows : List (List Value)) (values : List Value) :
    groupKeys layout (rows ++ [values]) =
      if keysOf layout values ∈ groupKeys layout rows then groupKeys layout rows
      else groupKeys layout rows ++ [keysOf layout values] := by
  unfold groupKeys
  cases unkeyed : layout.entries.any isKey with
  | true =>
    simp only [if_true, List.map_append, List.map_cons, List.map_nil, List.mem_eraseDups]
    exact Accumulator.eraseDups_concat (rows.map (keysOf layout)) (keysOf layout values)
  | false => simp [keysOf_of_unkeyed unkeyed]

theorem keysOf_mem_groupKeys {rows : List (List Value)} {values : List Value} (h : values ∈ rows) :
    keysOf layout values ∈ groupKeys layout rows := by
  unfold groupKeys
  split
  · exact List.mem_eraseDups.mpr (List.mem_map_of_mem h)
  · next unkeyed => simp [keysOf_of_unkeyed (Bool.eq_false_iff.mpr unkeyed)]

theorem groupKeys_nodup (rows : List (List Value)) : (groupKeys layout rows).Nodup := by
  induction rows using List.reverseRecOn with
  | nil => unfold groupKeys; split <;> simp
  | append_singleton rows values ih =>
    rw [groupKeys_concat]
    split
    · exact ih
    · next fresh =>
      refine List.nodup_append.mpr ⟨ih, by simp, fun k hk k' hk' => ?_⟩
      exact fun same => fresh (List.mem_singleton.mp (same ▸ hk') ▸ hk)

/-- A layout with keys has groups of rows only. -/
theorem groupRows_ne_nil {rows : List (List Value)} {keys : List Value}
    (keyed : layout.entries.any isKey = true) (h : keys ∈ groupKeys layout rows) :
    groupRows layout rows keys ≠ [] := by
  rw [groupKeys, if_pos keyed, List.mem_eraseDups] at h
  obtain ⟨values, hv, rfl⟩ := List.mem_map.mp h
  exact List.ne_nil_of_mem (List.mem_filter.mpr ⟨hv, decide_eq_true rfl⟩)

/-- Rows parted by keys without repetition are the rows with one of these keys. -/
theorem flatMap_groupRows_perm {keys : List (List Value)} (nodup : keys.Nodup)
    (rows : List (List Value)) :
    (keys.flatMap (groupRows layout rows)).Perm (rows.filter (keysOf layout · ∈ keys)) := by
  induction keys with
  | nil => simp
  | cons k rest ih =>
    obtain ⟨absent, nodup⟩ := List.nodup_cons.mp nodup
    have here : (rows.filter (keysOf layout · ∈ k :: rest)).filter (keysOf layout · = k) =
        groupRows layout rows k := by
      rw [List.filter_filter]
      refine List.filter_congr fun values _ => ?_
      by_cases h : keysOf layout values = k <;> simp [h]
    have there : (rows.filter (keysOf layout · ∈ k :: rest)).filter (!keysOf layout · = k) =
        rows.filter (keysOf layout · ∈ rest) := by
      rw [List.filter_filter]
      refine List.filter_congr fun values _ => ?_
      by_cases h : keysOf layout values = k <;> simp [h, absent]
    rw [List.flatMap_cons, ← here]
    exact ((ih nodup).append_left _).trans (there ▸ List.filter_append_perm _ _)

/-- No row is lost, and none stands in two groups. -/
theorem groupRows_perm (rows : List (List Value)) :
    ((groupKeys layout rows).flatMap (groupRows layout rows)).Perm rows := by
  have all : rows.filter (keysOf layout · ∈ groupKeys layout rows) = rows :=
    List.filter_eq_self.mpr fun _ h => decide_eq_true (keysOf_mem_groupKeys h)
  have parted : ((groupKeys layout rows).flatMap (groupRows layout rows)).Perm _ :=
    flatMap_groupRows_perm (groupKeys_nodup rows) rows
  rwa [all] at parted

/-! ### Groups -/

/-- The group of some keys after rows. -/
def groupAfter (layout : Layout) (rows : List (List Value)) (keys : List Value) : Group :=
  ⟨keys, (groupRows layout rows keys).foldl (List.zipWith Accumulator.add)
    (freshAccumulators layout)⟩

theorem groupAfter_concat (rows : List (List Value)) (values keys : List Value) :
    groupAfter layout (rows ++ [values]) keys =
      if keysOf layout values = keys then (groupAfter layout rows keys).add values
      else groupAfter layout rows keys := by
  unfold groupAfter groupRows
  rw [List.filter_append]
  split
  · next h => simp [h, Group.add]
  · next h => simp [h]

theorem groupAfter_fresh {rows : List (List Value)} {keys : List Value}
    (h : ∀ values ∈ rows, keysOf layout values ≠ keys) :
    groupAfter layout rows keys = ⟨keys, freshAccumulators layout⟩ := by
  have none : groupRows layout rows keys = [] :=
    List.filter_eq_nil_iff.mpr fun values hv => by simpa using h values hv
  rw [groupAfter, none]
  rfl

/-- A row goes to the group of its keys, which is opened at the end if there is none. -/
theorem addRow_map {keys values : List Value} {g g' : List Value → Group}
    {opened : List (List Value)} (nodup : opened.Nodup) (named : ∀ k ∈ opened, (g k).keys = k)
    (added : keys ∈ opened → g' keys = (g keys).add values)
    (same : ∀ k ∈ opened, k ≠ keys → g' k = g k) :
    addRow layout keys values (opened.map g) = opened.map g' ++
      if keys ∈ opened then [] else [(Group.mk keys (freshAccumulators layout)).add values] := by
  induction opened with
  | nil => rfl
  | cons k rest ih =>
    obtain ⟨absent, nodup⟩ := List.nodup_cons.mp nodup
    obtain ⟨name, named⟩ := List.forall_mem_cons.mp named
    rw [List.map_cons, addRow, name]
    split
    · next h =>
      subst h
      have others : rest.map g' = rest.map g := List.map_congr_left fun k' hk' =>
        same k' (List.mem_cons_of_mem _ hk') fun h => absent (h ▸ hk')
      rw [if_pos List.mem_cons_self, List.append_nil, List.map_cons, others,
        added List.mem_cons_self]
    · next h =>
      rw [ih nodup named (fun hk => added (List.mem_cons_of_mem _ hk)) fun k' hk' =>
        same k' (List.mem_cons_of_mem _ hk'), List.map_cons, same k List.mem_cons_self h,
        List.cons_append]
      simp only [List.mem_cons, Ne.symm h, false_or]

/-- The groups after rows are those of the keys of the rows. -/
theorem foldl_addRow (rows : List (List Value)) :
    rows.foldl (fun groups values => addRow layout (keysOf layout values) values groups)
      (initialGroups layout) = (groupKeys layout rows).map (groupAfter layout rows) := by
  induction rows using List.reverseRecOn with
  | nil =>
    unfold initialGroups groupKeys
    cases layout.entries.any isKey <;> rfl
  | append_singleton rows values ih =>
    have after (keys : List Value) : groupAfter layout (rows ++ [values]) keys = _ :=
      groupAfter_concat rows values keys
    rw [List.foldl_append, List.foldl_cons, List.foldl_nil, ih, groupKeys_concat,
      addRow_map (groupKeys_nodup rows) (fun _ _ => rfl)
        (fun _ => (after _).trans (if_pos rfl)) fun k _ hk => (after k).trans (if_neg (Ne.symm hk))]
    by_cases known : keysOf layout values ∈ groupKeys layout rows
    · rw [if_pos known, if_pos known, List.append_nil]
    · have new : ∀ values' ∈ rows, keysOf layout values' ≠ keysOf layout values := by
        intro values' hv' same
        rw [← same] at known
        exact known (keysOf_mem_groupKeys hv')
      rw [if_neg known, if_neg known, List.map_append, List.map_cons, List.map_nil, after,
        if_pos rfl, groupAfter_fresh new]

/-! ### Fields -/

theorem foldl_zipWith_add {rows : List (List Value)} {accumulators : List Accumulator}
    (lengths : ∀ values ∈ rows, values.length = accumulators.length) :
    rows.foldl (List.zipWith Accumulator.add) accumulators =
      accumulators.mapIdx fun i a => (column rows i).foldl Accumulator.add a := by
  induction rows generalizing accumulators with
  | nil => exact (List.mapIdx_eq_iff.mpr fun i => by simp [column]).symm
  | cons values rest ih =>
    obtain ⟨length, lengths⟩ := List.forall_mem_cons.mp lengths
    have first : List.zipWith Accumulator.add accumulators values =
        accumulators.mapIdx fun i a => a.add (values.getD i .null) := by
      apply List.ext_getElem
      · simp [length]
      · intro i _ h
        have inside : i < accumulators.length := by simpa using h
        simp [List.getD_eq_getElem?_getD, length, inside]
    rw [List.foldl_cons, ih (by simpa [length] using lengths), first, List.mapIdx_mapIdx]
    rfl

/-- The record of a group is reduced from its rows. -/
theorem groupAfter_record {rows : List (List Value)} {keys : List Value}
    (lengths : ∀ values ∈ rows, values.length = layout.entries.length)
    (h : keys ∈ groupKeys layout rows) :
    (groupAfter layout rows keys).record layout =
      groupRecord layout keys (groupRows layout rows keys) := by
  have part : ∀ values ∈ groupRows layout rows keys,
      values ∈ rows ∧ keysOf layout values = keys := fun values hv => by
    simpa [groupRows] using hv
  unfold Group.record groupRecord groupAfter
  congr 1
  rw [foldl_zipWith_add fun values hv => by
    simpa [freshAccumulators] using lengths values (part values hv).1]
  apply List.ext_getElem
  · simp [freshAccumulators]
  · intro i hi _
    have inside : i < layout.entries.length := by simpa [freshAccumulators] using hi
    simp only [freshAccumulators, List.getElem_zipWith, List.getElem_mapIdx, List.getElem_map]
    congr 1
    refine Accumulator.value_foldl_add fun isKind => ?_
    have isKey : isKey layout.entries[i] = true := by simp [Layout.isKey, isKind]
    have keyed : layout.entries.any Layout.isKey = true :=
      List.any_eq_true.mpr ⟨_, List.getElem_mem inside, isKey⟩
    constructor
    · intro v hv
      obtain ⟨values, hvalues, rfl⟩ := List.mem_map.mp hv
      obtain ⟨mem, same⟩ := part values hvalues
      rw [← same, keyAt_keysOf (lengths values mem) (List.getElem?_eq_getElem inside) isKey]
    · exact fun none => groupRows_ne_nil keyed h (List.map_eq_nil_iff.mp none)

/-! ### Records -/

/-- The failure of a record whose aggregation does not fit. -/
def misfit? (builder : Record → Aggregation) (layout : Layout) (r : Record) : Option Error :=
  match layout.check (builder r) with
  | .error flaw => some (.aggregation flaw)
  | .ok () => none

theorem misfit?_eq_none {r : Record} : misfit? builder layout r = none ↔ layout.Fits (builder r) := by
  rw [← Layout.check_eq_ok_iff, misfit?]
  cases layout.check (builder r) <;> simp

theorem misfit?_eq_some {r : Record} {error : Error} : misfit? builder layout r = some error ↔
    ∃ flaw, Misfit layout (builder r) flaw ∧ error = .aggregation flaw := by
  simp only [← Layout.check_eq_error_iff, misfit?]
  cases layout.check (builder r) <;> simp [eq_comm]

theorem groupRecords_eq (records : List Record) (groups : List Group) :
    groupRecords builder layout groups records =
      (records.findSome? (misfit? builder layout)).elim
        (.ok ((rowsOf builder records).foldl
          (fun groups values => addRow layout (keysOf layout values) values groups) groups))
        .error := by
  induction records generalizing groups with
  | nil => rfl
  | cons r rest ih =>
    rw [groupRecords, List.findSome?_cons, misfit?]
    cases layout.check (builder r) with
    | error flaw => rfl
    | ok => exact ih _

theorem length_of_mem_rowsOf {records : List Record} (fit : ∀ r ∈ records, layout.Fits (builder r)) :
    ∀ values ∈ rowsOf builder records, values.length = layout.entries.length := by
  intro values hv
  obtain ⟨r, hr, rfl⟩ := List.mem_map.mp hv
  simpa [Aggregation.values] using (fit r hr).length_eq

/-- What an aggregation is: the rows of the records parted by key, every part reduced to a record. -/
structure Partition (records : List Record) (builder : Record → Aggregation) (layout : Layout)
    (schema : Schema) (outcome : Except Error (List Record)) : Prop where
  refuses : (∃ error, outcome = .error error) ↔ ∃ r ∈ records, ¬ layout.Fits (builder r)
  fails : ∀ error, outcome = .error error ↔ ∃ before r after flaw, records = before ++ r :: after ∧
    (∀ b ∈ before, layout.Fits (builder b)) ∧ Misfit layout (builder r) flaw ∧
    error = .aggregation flaw
  distinct : (groupKeys layout (rowsOf builder records)).Nodup
  /-- The rows of a group are alike at the key entries, those of two groups are not. -/
  keyed : (∀ r ∈ records, layout.Fits (builder r)) →
    ∀ values ∈ rowsOf builder records, ∀ values' ∈ rowsOf builder records,
      (keysOf layout values = keysOf layout values' ↔
        ∀ i entry, layout.entries[i]? = some entry → isKey entry = true →
          values.getD i .null = values'.getD i .null)
  parts : ((groupKeys layout (rowsOf builder records)).flatMap
    (groupRows layout (rowsOf builder records))).Perm (rowsOf builder records)
  reduces : (∀ r ∈ records, layout.Fits (builder r)) →
    outcome = .ok ((groupKeys layout (rowsOf builder records)).map fun keys =>
      schema.conform (groupRecord layout keys (groupRows layout (rowsOf builder records) keys)))

theorem aggregate_eq (records : List Record) (builder : Record → Aggregation) (layout : Layout)
    (schema : Schema) :
    aggregate records builder layout schema =
      (records.findSome? (misfit? builder layout)).elim
        (.ok ((groupKeys layout (rowsOf builder records)).map fun keys =>
          schema.conform ((groupAfter layout (rowsOf builder records) keys).record layout)))
        .error := by
  rw [aggregate, groupRecords_eq, foldl_addRow]
  cases records.findSome? (misfit? builder layout) with
  | some error => rfl
  | none => exact congrArg Except.ok List.map_map

/-- Where every aggregation fits, the rows of each group are reduced to its record. -/
theorem aggregate_of_fits {records : List Record} {schema : Schema}
    (fit : ∀ r ∈ records, layout.Fits (builder r)) :
    aggregate records builder layout schema =
      .ok ((groupKeys layout (rowsOf builder records)).map fun keys =>
        schema.conform (groupRecord layout keys (groupRows layout (rowsOf builder records) keys))) := by
  have none : records.findSome? (misfit? builder layout) = none :=
    List.findSome?_eq_none_iff.mpr fun r hr => misfit?_eq_none.mpr (fit r hr)
  rw [aggregate_eq, none]
  refine congrArg Except.ok (List.map_congr_left fun keys hk => ?_)
  rw [groupAfter_record (length_of_mem_rowsOf fit) hk]

/-- The single pass parts the rows and reduces the parts. -/
theorem aggregate_partition (records : List Record) (builder : Record → Aggregation)
    (layout : Layout) (schema : Schema) :
    Partition records builder layout schema (aggregate records builder layout schema) where
  refuses := by
    rw [aggregate_eq]
    cases h : records.findSome? (misfit? builder layout) with
    | some error =>
      obtain ⟨_, r, _, rfl, refused, _⟩ := List.findSome?_eq_some_iff.mp h
      refine iff_of_true ⟨error, rfl⟩ ⟨r, by simp, fun fits => ?_⟩
      rw [misfit?_eq_none.mpr fits] at refused
      cases refused
    | none =>
      refine iff_of_false (fun ⟨_, h⟩ => nomatch h) fun ⟨r, hr, misfit⟩ => misfit ?_
      exact misfit?_eq_none.mp (List.findSome?_eq_none_iff.mp h r hr)
  fails error := by
    rw [aggregate_eq, elim_eq_error_iff, List.findSome?_eq_some_iff]
    simp only [misfit?_eq_none, misfit?_eq_some]
    constructor
    · rintro ⟨before, r, after, split, ⟨flaw, misfit, named⟩, first⟩
      exact ⟨before, r, after, flaw, split, first, misfit, named⟩
    · rintro ⟨before, r, after, flaw, split, first, misfit, named⟩
      exact ⟨before, r, after, split, ⟨flaw, misfit, named⟩, first⟩
  distinct := groupKeys_nodup _
  keyed fit values hv values' hv' :=
    keysOf_eq_iff (length_of_mem_rowsOf fit values hv) (length_of_mem_rowsOf fit values' hv')
  parts := groupRows_perm _
  reduces := aggregate_of_fits

/-- Orders by customer; where `counts` says so an amount is counted, else it is summed. -/
def summary (counts : Value → Bool) (r : Record) : Aggregation :=
  ⟨[⟨if counts (r.value "amount") then .count else .sum, "total", r.value "amount"⟩,
    ⟨.groupBy, "customer", r.value "customer"⟩, ⟨.toArray, "amounts", r.value "amount"⟩,
    ⟨.toSet, "sizes", r.value "amount"⟩]⟩

def summaryLayout : Layout :=
  ⟨[(.sum, "total"), (.groupBy, "customer"), (.toArray, "amounts"), (.toSet, "sizes")]⟩

def summarySchema : Schema := RecordType.schema ⟨"summary",
  [⟨"customer", .string, true⟩, ⟨"total", .int64, true⟩, ⟨"amounts", .list .int64, false⟩,
    ⟨"sizes", .set .int64, false⟩]⟩

def order (customer amount : Value) : Record := ⟨[("customer", customer), ("amount", amount)]⟩

/-- Null is a customer as any other; an order without amount is in its array alone; and the first
order that is not summarised by the layout refuses all. -/
theorem orders_summarised :
    aggregate [order .null (.int 5), order (.text "b") (.int 2), order .null .null,
        order .null (.int 5)] (summary fun _ => false) summaryLayout summarySchema =
      .ok [⟨[("customer", .null), ("total", .int 10),
          ("amounts", .list [.int 5, .null, .int 5]), ("sizes", .list [.int 5])]⟩,
        ⟨[("customer", .text "b"), ("total", .int 2), ("amounts", .list [.int 2]),
          ("sizes", .list [.int 2])]⟩] ∧
    aggregate [order .null (.int 5), order (.text "b") .null] (summary Value.isNull) summaryLayout
        summarySchema = .error (.aggregation (.kindDiffers "total" .count .sum)) ∧
    aggregate [] (fun _ => ⟨[]⟩) ⟨[(.count, "total")]⟩ summarySchema =
      .ok [⟨[("customer", .null), ("total", .int 0), ("amounts", .null), ("sizes", .null)]⟩] := by
  refine ⟨?_, ?_, ?_⟩
  · exact ((aggregate_partition _ _ _ _).reduces (by decide)).trans rfl
  · refine ((aggregate_partition _ _ _ _).fails _).mpr
      ⟨[order .null (.int 5)], order (.text "b") .null, [], _, rfl, by decide, ?_, rfl⟩
    exact .kind rfl (.intro [] _ _ [] _ _ _ rfl rfl rfl (by decide))
  · exact ((aggregate_partition _ _ _ _).reduces (by decide)).trans rfl

end RecordFlow.Memory
