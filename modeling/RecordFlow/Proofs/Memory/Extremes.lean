import RecordFlow.Proofs.Memory.Entries

/-! Least and greatest values. One pass compares each value with the best so far only, and values of
different kinds need not compare. Main statement: nothing in the group is less than what it returns
as the least value, and nothing greater than what it returns as the greatest. -/

namespace RecordFlow

namespace Accumulator

variable {isBetter : Value → Value → Bool}

/-- A pass that replaces the best so far by what is better ends with a value that none is better than,
as what is better than a replacement is better than what it replaced. -/
theorem foldl_better {vs : List Value} (irrefl : ∀ v ∈ vs, ¬ isBetter v v = true)
    (trans : ∀ v ∈ vs, ∀ w ∈ vs, ∀ x ∈ vs,
      isBetter v w = true → isBetter w x = true → isBetter v x = true) (some : vs ≠ []) :
    ∃ best ∈ vs, vs.foldl (better isBetter) none = .some best ∧
      ∀ v ∈ vs, ¬ isBetter v best = true := by
  induction vs using List.reverseRecOn with
  | nil => exact absurd rfl some
  | append_singleton vs last ih =>
    have earlier {v} (h : v ∈ vs) : v ∈ vs ++ [last] := List.mem_append_left _ h
    have here : last ∈ vs ++ [last] := List.mem_concat_self
    rw [List.foldl_append, List.foldl_cons, List.foldl_nil]
    by_cases first : vs = []
    · subst first
      exact ⟨last, here, rfl, by simpa using irrefl last here⟩
    obtain ⟨best, mem, run, unbeaten⟩ := ih (fun v hv => irrefl v (earlier hv))
      (fun v hv w hw x hx => trans v (earlier hv) w (earlier hw) x (earlier hx)) first
    rw [run, better]
    split
    · next replaced =>
      refine ⟨last, here, rfl, fun v hv improves => ?_⟩
      obtain hv | hv := List.mem_append.mp hv
      · exact unbeaten v hv (trans v (earlier hv) last here best (earlier mem) improves replaced)
      · rw [List.mem_singleton.mp hv] at improves
        exact irrefl last here improves
    · next kept =>
      refine ⟨best, earlier mem, rfl, fun v hv => ?_⟩
      obtain hv | hv := List.mem_append.mp hv
      · exact unbeaten v hv
      · rwa [List.mem_singleton.mp hv]

/-- The value of a column that none is better than, and null where all are null. -/
structure Best (isBetter : Value → Value → Bool) (values : List Value) (best : Value) : Prop where
  null_iff : best = .null ↔ present values = []
  mem : present values ≠ [] → best ∈ present values
  unbeaten : ∀ v ∈ values, ¬ isBetter v best = true

theorem mem_present {values : List Value} {v : Value} :
    v ∈ present values ↔ v ∈ values ∧ v ≠ .null := by
  rw [present, List.mem_filter]
  cases v <;> simp [Value.isNull]

/-- A pass over the values of a column that are not null ends with the best of them. -/
theorem best_of_orders {values : List Value} (orders : Value.Orders isBetter)
    (scalars : ∀ v ∈ values, v.isScalar = true) :
    Best isBetter values (((present values).foldl (better isBetter) none).getD .null) := by
  have scalar {v} (h : v ∈ present values) : v.isScalar = true := scalars v (mem_present.mp h).1
  by_cases none : present values = []
  · rw [none]
    refine ⟨iff_of_true rfl none, fun some => absurd none some, fun v hv => ?_⟩
    have null : v = .null := by_contra fun h => List.ne_nil_of_mem (mem_present.mpr ⟨hv, h⟩) none
    exact null ▸ orders.null
  · obtain ⟨best, mem, run, unbeaten⟩ := foldl_better (fun _ hv => orders.irrefl (scalar hv))
      (fun _ hv _ hw _ hx => orders.trans (scalar hv) (scalar hw) (scalar hx)) none
    rw [run]
    refine ⟨iff_of_false (mem_present.mp mem).2 none, fun _ => mem, fun v hv => ?_⟩
    by_cases null : v = .null
    · exact null ▸ orders.null
    · exact unbeaten v (mem_present.mpr ⟨hv, null⟩)

theorem ofColumn_min (key : Value) (values : List Value) : ofColumn .min key values =
    ((present values).foldl (better Value.isLess) none).getD .null := by
  rw [ofColumn, fresh, foldl_add_present (better Value.isLess) fun _ _ => rfl]
  rfl

theorem ofColumn_max (key : Value) (values : List Value) : ofColumn .max key values =
    ((present values).foldl (better Value.isGreater) none).getD .null := by
  rw [ofColumn, fresh, foldl_add_present (better Value.isGreater) fun _ _ => rfl]
  rfl

theorem Best.isScalar {values : List Value} {best : Value} (h : Best isBetter values best)
    (scalars : ∀ v ∈ values, v.isScalar = true) : best.isScalar = true := by
  by_cases none : present values = []
  · rw [h.null_iff.mpr none]
    rfl
  · exact scalars best (mem_present.mp (h.mem none)).1

end Accumulator

/-! ### Groups -/

namespace Memory

open Aggregation (Layout)
open Accumulator (Best best_of_orders better ofColumn present)

variable {builder : Record → Aggregation} {layout : Layout} {schema : Schema}
  {records : List Record} {keys : List Value} {i : Nat} {name : String}

theorem extreme_of_fits {kind : AggregationKind} {isBetter : Value → Value → Bool}
    (fit : ∀ r ∈ records, layout.Fits (builder r))
    (group : keys ∈ groupKeys layout (rowsOf builder records))
    (scalars : ∀ v ∈ valuesAt builder layout records keys i, v.isScalar = true)
    (orders : Value.Orders isBetter) (entry : layout.entries[i]? = some (kind, name))
    (made : ∀ key vs, ofColumn kind key vs = ((present vs).foldl (better isBetter) none).getD .null) :
    ∃ best, Returns builder layout schema records keys i name best ∧
      Best isBetter (valuesAt builder layout records keys i) best :=
  have best := best_of_orders orders scalars
  ⟨_, returns_of_fits fit group entry (best.isScalar scalars) (made _ _), best⟩

/-- Less is a strict partial order on scalars, however whole numbers and floats meet, and so the least
and the greatest value of every group of scalars are extreme in it. -/
theorem aggregate_extremes :
    (Value.Orders Value.isLess ∧ Value.Rounds Value.isLess ∧
      ∀ v w : Value, v.isScalar = true → w.isScalar = true →
        (v.isGreater w = true ↔ w.isLess v = true)) ∧
      ∀ (builder : Record → Aggregation) (layout : Layout) (schema : Schema)
        (records : List Record) (keys : List Value) (i : Nat) (name : String),
        (∀ r ∈ records, layout.Fits (builder r)) →
        keys ∈ groupKeys layout (rowsOf builder records) →
        (∀ v ∈ valuesAt builder layout records keys i, v.isScalar = true) →
          (layout.entries[i]? = some (.min, name) → ∃ least,
            Returns builder layout schema records keys i name least ∧
              Best Value.isLess (valuesAt builder layout records keys i) least) ∧
          (layout.entries[i]? = some (.max, name) → ∃ greatest,
            Returns builder layout schema records keys i name greatest ∧
              Best Value.isGreater (valuesAt builder layout records keys i) greatest) := by
  refine ⟨⟨Value.isLess_orders, Value.isLess_rounds, fun _ _ => Value.isGreater_iff_isLess⟩, ?_⟩
  intro builder layout schema records keys i name fit group scalars
  constructor
  · intro entry
    exact extreme_of_fits fit group scalars Value.isLess_orders entry Accumulator.ofColumn_min
  · intro entry
    exact extreme_of_fits fit group scalars Value.isGreater_orders entry Accumulator.ofColumn_max

def reading (level : Value) : Record := ⟨[("level", level)]⟩

def range (r : Record) : Aggregation :=
  ⟨[⟨.min, "least", r.value "level"⟩, ⟨.max, "greatest", r.value "level"⟩]⟩

def rangeLayout : Layout := ⟨[(.min, "least"), (.max, "greatest")]⟩

def rangeSchema : Schema := RecordType.schema ⟨"range",
  [⟨"least", .int64, true⟩, ⟨"greatest", .int64, true⟩]⟩

/-- The float is neither less nor greater than either of the two whole numbers, which differ; the NaN
and the text compare with no number. -/
def levels : List Value :=
  [.int 9007199254740993, .float (.ofInt 9007199254740992), .int 9007199254740992,
    .float (.nan true), .null, .text "high"]

theorem levels_range :
    Returns range rangeLayout rangeSchema (levels.map reading) [] 0 "least"
        (.int 9007199254740992) ∧
      Best Value.isLess levels (.int 9007199254740992) ∧
      Returns range rangeLayout rangeSchema (levels.map reading) [] 1 "greatest"
        (.int 9007199254740993) ∧
      Best Value.isGreater levels (.int 9007199254740993) := by
  obtain ⟨smallest, -⟩ := aggregate_extremes.2 range rangeLayout rangeSchema (levels.map reading)
    [] 0 "least" (by decide) (by decide) (by decide)
  obtain ⟨-, largest⟩ := aggregate_extremes.2 range rangeLayout rangeSchema (levels.map reading)
    [] 1 "greatest" (by decide) (by decide) (by decide)
  obtain ⟨least, low, bestLow⟩ := smallest rfl
  obtain ⟨greatest, high, bestHigh⟩ := largest rfl
  have first : (reducedRecord range rangeLayout (levels.map reading) []).fields =
      [("least", .int 9007199254740992), ("greatest", .int 9007199254740993)] := by decide +kernel
  have held := low.held
  have held' := high.held
  rw [first] at held held'
  cases held
  cases held'
  exact ⟨low, bestLow, high, bestHigh⟩

end Memory

end RecordFlow
