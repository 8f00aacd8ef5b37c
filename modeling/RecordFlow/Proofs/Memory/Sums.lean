import Mathlib.Data.List.Infix
import RecordFlow.Proofs.Memory.Entries
import RecordFlow.Proofs.Whole

/-! Sums of whole numbers. A running sum that leaves 64 bits becomes a float and stays one, even if the
sum of all numbers fits. Main statement: a group sums to the whole number that is its total just if
all running totals fit, and it does in every order of the records just if the positive numbers alone
and the negative ones alone have totals that fit. -/

namespace RecordFlow

namespace Sum

open Whole (Within)

/-- The exact sum. -/
def total : List Int64 → Int
  | [] => 0
  | n :: ns => n.toInt + total ns

/-- Every running total fits. -/
def RunsWithin (ns : List Int64) : Prop := ∀ p, p <+: ns → Within (total p)

instance (ns : List Int64) : Decidable (RunsWithin ns) :=
  decidable_of_iff (∀ p ∈ ns.inits, Within (total p)) <| by simp only [RunsWithin, List.mem_inits]

theorem total_append (ns ms : List Int64) : total (ns ++ ms) = total ns + total ms := by
  induction ns with
  | nil => exact (Int.zero_add _).symm
  | cons n ns ih => rw [List.cons_append, total, total, ih, Int.add_assoc]

theorem total_concat (ns : List Int64) (n : Int64) : total (ns ++ [n]) = total ns + n.toInt := by
  rw [total_append, total, total, Int.add_zero]

theorem total_perm {ns ms : List Int64} (h : ns.Perm ms) : total ns = total ms := by
  induction h with
  | nil => rfl
  | cons n _ ih => rw [total, total, ih]
  | swap m n ns => simp only [total, Int.add_left_comm]
  | trans _ _ ih ih' => exact ih.trans ih'

theorem runsWithin_concat {ns : List Int64} {n : Int64} :
    RunsWithin (ns ++ [n]) ↔ Within (total ns + n.toInt) ∧ RunsWithin ns := by
  simp only [RunsWithin, List.prefix_concat_iff, or_imp, forall_and, forall_eq, total_concat]

theorem runsWithin_nil : RunsWithin [] := by
  intro p hp
  rw [List.prefix_nil.mp hp]
  decide

/-! ### Running sums -/

/-- Whole numbers sum to their total as long as it fits, and to a float from then on. -/
theorem foldl_add_int {ns : List Int64} (some : ns ≠ []) :
    (RunsWithin ns ∧ ∃ n, n.toInt = total ns ∧ (ns.map Value.int).foldl add .nothing = .whole n) ∨
      (¬ RunsWithin ns ∧ ∃ x, (ns.map Value.int).foldl add .nothing = .float x) := by
  induction ns using List.reverseRecOn with
  | nil => exact absurd rfl some
  | append_singleton ns n ih =>
    rw [List.map_append, List.foldl_append, List.map_cons, List.map_nil, List.foldl_cons,
      List.foldl_nil, runsWithin_concat, total_concat]
    by_cases first : ns = []
    · subst first
      refine .inl ⟨⟨?_, runsWithin_nil⟩, n, ?_, rfl⟩
      · simpa [total] using Whole.within_toInt n
      · simp [total]
    rcases ih first with ⟨within, m, exact_m, run⟩ | ⟨left, x, run⟩
    · rw [run, add, addWhole?, exact_m]
      cases next : Whole.ofInt? (total ns + n.toInt) with
      | none =>
        rw [Whole.ofInt?_eq_none_iff] at next
        exact .inr ⟨fun h => next h.1, _, rfl⟩
      | some k =>
        have exact_k := Whole.ofInt?_eq_some_iff.mp next
        exact .inl ⟨⟨exact_k ▸ Whole.within_toInt k, within⟩, k, exact_k, rfl⟩
    · rw [run]
      exact .inr ⟨fun h => left h.2, _, rfl⟩

/-! ### Orders -/

def positives (ns : List Int64) : List Int64 := ns.filter (0 < ·.toInt)

def negatives (ns : List Int64) : List Int64 := ns.filter (·.toInt < 0)

theorem total_positives_nonneg (ns : List Int64) : 0 ≤ total (positives ns) := by
  induction ns with
  | nil => exact Int.le_refl 0
  | cons n ns ih =>
    rw [positives, List.filter_cons]
    split
    · next positive => exact Int.add_nonneg (Int.le_of_lt (by simpa using positive)) ih
    · exact ih

theorem total_negatives_nonpos (ns : List Int64) : total (negatives ns) ≤ 0 := by
  induction ns with
  | nil => exact Int.le_refl 0
  | cons n ns ih =>
    rw [negatives, List.filter_cons]
    split
    · next negative => exact Int.add_nonpos (Int.le_of_lt (by simpa using negative)) ih
    · exact ih

/-- The numbers of either sign alone go at least as far as all numbers. -/
theorem total_mem (ns : List Int64) :
    total (negatives ns) ≤ total ns ∧ total ns ≤ total (positives ns) := by
  induction ns with
  | nil => exact ⟨Int.le_refl _, Int.le_refl _⟩
  | cons n rest ih =>
    obtain ⟨low, high⟩ := ih
    unfold negatives positives at *
    constructor
    · rw [List.filter_cons]
      split
      · exact Int.add_le_add_left low _
      · next positive =>
        have : 0 ≤ n.toInt := by simpa using positive
        rw [total]
        omega
    · rw [List.filter_cons]
      split
      · exact Int.add_le_add_left high _
      · next negative =>
        have : n.toInt ≤ 0 := by simpa using negative
        rw [total]
        omega

theorem runsWithin_of_signs {ns : List Int64} (high : Within (total (positives ns)))
    (low : Within (total (negatives ns))) : RunsWithin ns := by
  rintro p ⟨rest, rfl⟩
  have mem := total_mem p
  have up := total_positives_nonneg rest
  have down := total_negatives_nonpos rest
  unfold positives negatives at *
  rw [List.filter_append, total_append] at high low
  exact ⟨by have := low.1; omega, by have := high.2; omega⟩

/-- All orders of some numbers stay within just if the numbers of either sign do. -/
theorem runsWithin_perm_iff {ns : List Int64} :
    (∀ ms, ms.Perm ns → RunsWithin ms) ↔
      Within (total (positives ns)) ∧ Within (total (negatives ns)) := by
  constructor
  · intro all
    have front (sign : Int64 → Bool) : Within (total (ns.filter sign)) :=
      all _ (List.filter_append_perm sign ns) _ (List.prefix_append _ _)
    exact ⟨front _, front _⟩
  · rintro ⟨high, low⟩ ms perm
    apply runsWithin_of_signs
    · rwa [positives, total_perm (perm.filter _)]
    · rwa [negatives, total_perm (perm.filter _)]

end Sum

/-! ### Groups -/

namespace Memory

open Aggregation (Layout)
open Accumulator (present ofColumn)
open RecordFlow.Sum (total total_perm RunsWithin runsWithin_perm_iff positives negatives)
open Whole (Within)

variable {builder : Record → Aggregation} {layout : Layout} {schema : Schema}
  {records : List Record} {keys : List Value} {i : Nat} {name : String} {ns : List Int64}

theorem ofColumn_sum (key : Value) (vs : List Value) :
    ofColumn .sum key vs = ((present vs).foldl Sum.add .nothing).value := by
  rw [ofColumn, Accumulator.fresh, Accumulator.foldl_add_present Sum.add fun _ _ => rfl]
  rfl

/-- What a group of whole numbers sums to at an entry. -/
structure SumsTo (builder : Record → Aggregation) (layout : Layout) (schema : Schema)
    (records : List Record) (keys : List Value) (i : Nat) (name : String) (ns : List Int64) :
    Prop where
  exact : RunsWithin ns →
    ∃ n, n.toInt = total ns ∧ Returns builder layout schema records keys i name (.int n)
  rounded : ¬ RunsWithin ns →
    ∃ x, Returns builder layout schema records keys i name (.float x)

theorem sumsTo_of_fits (fit : ∀ r ∈ records, layout.Fits (builder r))
    (group : keys ∈ groupKeys layout (rowsOf builder records))
    (entry : layout.entries[i]? = some (.sum, name)) (some : ns ≠ [])
    (numbers : present (valuesAt builder layout records keys i) = ns.map .int) :
    SumsTo builder layout schema records keys i name ns := by
  have made : ofColumn .sum (keyAt layout keys i) (valuesAt builder layout records keys i) =
      ((ns.map Value.int).foldl Sum.add .nothing).value := by
    rw [ofColumn_sum, numbers]
  constructor
  · intro within
    obtain ⟨-, n, exact, run⟩ | ⟨left, -⟩ := Sum.foldl_add_int some
    · exact ⟨n, exact, returns_of_fits fit group entry rfl (made.trans (run ▸ rfl))⟩
    · exact absurd within left
  · intro left
    obtain ⟨within, -⟩ | ⟨-, x, run⟩ := Sum.foldl_add_int some
    · exact absurd within left
    · exact ⟨x, returns_of_fits fit group entry rfl (made.trans (run ▸ rfl))⟩

/-- In another order of the records the group sums the same numbers in another order. -/
theorem sumsTo_of_perm (fit : ∀ r ∈ records, layout.Fits (builder r))
    (group : keys ∈ groupKeys layout (rowsOf builder records))
    (entry : layout.entries[i]? = some (.sum, name)) (some : ns ≠ [])
    (numbers : present (valuesAt builder layout records keys i) = ns.map .int)
    {records' : List Record} (order : records'.Perm records) :
    ∃ ms, ms.Perm ns ∧ present (valuesAt builder layout records' keys i) = ms.map .int ∧
      SumsTo builder layout schema records' keys i name ms := by
  have moved : (present (valuesAt builder layout records' keys i)).Perm (ns.map .int) :=
    numbers ▸ (valuesAt_perm order).filter _
  obtain ⟨ms, perm, numbers'⟩ := exists_perm_map _ moved
  have some' : ms ≠ [] := fun none => some (List.nil_perm.mp (none ▸ perm))
  exact ⟨ms, perm, numbers'.symm, sumsTo_of_fits (fun r hr => fit r (order.mem_iff.mp hr))
    ((mem_groupKeys_perm order).mpr group) entry some' numbers'.symm⟩

/-- A group sums to the whole number that is its total as long as the running totals fit in 64 bits,
and to a float from then on, in whatever order its records stand. All orders of them give the whole
number just if the positive numbers and the negative ones have totals that fit. -/
theorem aggregate_sums (fit : ∀ r ∈ records, layout.Fits (builder r))
    (group : keys ∈ groupKeys layout (rowsOf builder records))
    (entry : layout.entries[i]? = some (.sum, name)) (some : ns ≠ [])
    (numbers : present (valuesAt builder layout records keys i) = ns.map .int) :
    SumsTo builder layout schema records keys i name ns ∧
      (∀ records', records'.Perm records → ∃ ms, ms.Perm ns ∧ total ms = total ns ∧
        present (valuesAt builder layout records' keys i) = ms.map .int ∧
        SumsTo builder layout schema records' keys i name ms) ∧
      ((∀ records', records'.Perm records → ∃ n, n.toInt = total ns ∧
          Returns builder layout schema records' keys i name (.int n)) ↔
        Within (total (positives ns)) ∧ Within (total (negatives ns))) := by
  have reordered {records' : List Record} (order : records'.Perm records) :=
    @sumsTo_of_perm _ _ schema _ _ _ _ _ fit group entry some numbers _ order
  refine ⟨sumsTo_of_fits fit group entry some numbers, fun records' order => ?_, ?_, ?_⟩
  · obtain ⟨ms, perm, numbers', sums⟩ := reordered order
    exact ⟨ms, perm, total_perm perm, numbers', sums⟩
  · intro all
    refine runsWithin_perm_iff.mp fun ms perm => ?_
    -- The numbers come in this order in some order of the records.
    obtain ⟨records', order, numbers'⟩ := exists_perm_present (numbers ▸ perm.map Value.int)
    obtain ⟨ms', -, same, sums⟩ := reordered order
    obtain ⟨n, -, whole⟩ := all records' order
    have eq : ms' = ms :=
      List.map_injective_iff.mpr (fun _ _ => Value.int.inj) (same.symm.trans numbers')
    by_contra left
    obtain ⟨x, float⟩ := sums.rounded (eq ▸ left)
    cases whole.held.symm.trans float.held
  · intro signs records' order
    obtain ⟨ms, perm, -, sums⟩ := reordered order
    obtain ⟨n, exact, whole⟩ := sums.exact (runsWithin_perm_iff.mpr signs ms perm)
    exact ⟨n, exact.trans (total_perm perm), whole⟩

def payment (amount : Value) : Record := ⟨[("amount", amount)]⟩

def balance (r : Record) : Aggregation := ⟨[⟨.sum, "balance", r.value "amount"⟩]⟩

def balanceLayout : Layout := ⟨[(.sum, "balance")]⟩

def balanceSchema : Schema := RecordType.schema ⟨"account", [⟨"balance", .int64, true⟩]⟩

def payments : List Record := [.int .maxValue, .int (-1), .null, .int 1].map payment

/-- The balance is the largest number as the payments stand, and a float in some other order. -/
theorem payments_balance :
    SumsTo balance balanceLayout balanceSchema payments [] 0 "balance" [.maxValue, -1, 1] ∧
      (∃ n, n.toInt = Int64.maxValue.toInt ∧
        Returns balance balanceLayout balanceSchema payments [] 0 "balance" (.int n)) ∧
      ¬ ∀ records', records'.Perm payments → ∃ n, n.toInt = total [.maxValue, -1, 1] ∧
        Returns balance balanceLayout balanceSchema records' [] 0 "balance" (.int n) := by
  obtain ⟨sums, -, orders⟩ := @aggregate_sums balance balanceLayout balanceSchema payments [] 0
    "balance" [.maxValue, -1, 1] (by decide) (by decide) rfl (by decide) rfl
  refine ⟨sums, ?_, fun all => ?_⟩
  · obtain ⟨n, exact, whole⟩ := sums.exact (by decide)
    exact ⟨n, exact.trans (by decide), whole⟩
  · exact absurd (orders.mp all) (by decide)

/-- The same payments in two orders: the total fits in 64 bits, but one running total does not. -/
theorem payments_leave_range :
    Within (total [.maxValue, 1, -1]) ∧
      (∃ x, aggregate ([.int .maxValue, .int 1, .int (-1)].map payment) balance balanceLayout
        balanceSchema = .ok [⟨[("balance", .float x)]⟩]) ∧
      aggregate ([.int .maxValue, .int (-1), .int 1].map payment) balance balanceLayout
        balanceSchema = .ok [⟨[("balance", .int .maxValue)]⟩] :=
  ⟨by decide, ⟨_, rfl⟩, rfl⟩

end Memory

end RecordFlow
