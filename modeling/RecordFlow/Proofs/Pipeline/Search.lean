import Mathlib.Algebra.Group.Nat.Defs
import RecordFlow.Pipeline

/-! Searching steps by halving. Where ids rise it finds just what looking at every step finds. -/

namespace RecordFlow

variable {id : StepId} {steps : List Step} {s : Step}

theorem mem_of_searchWithin {depth : Nat} (h : searchWithin id depth steps = some s) :
    s ∈ steps ∧ s.id = id := by
  induction depth generalizing steps with
  | zero =>
    obtain ⟨head, found⟩ := Option.filter_eq_some_iff.mp h
    exact ⟨List.mem_of_head? head, by simpa using found⟩
  | succ depth ih =>
    simp only [searchWithin] at h
    split at h
    · exact ⟨List.mem_of_mem_take (ih h).1, (ih h).2⟩
    · exact ⟨List.mem_of_mem_drop (ih h).1, (ih h).2⟩

theorem Pipeline.mem_of_find? {p : Pipeline} (h : p.find? id = some s) :
    s ∈ p.steps ∧ s.id = id := by
  obtain ⟨hs, hid⟩ := mem_of_searchWithin h
  exact ⟨List.mem_reverse.mp hs, hid⟩

/-- No step has the id if all ids are above it, or all below. -/
theorem find?_eq_none_of_ne (h : ∀ s ∈ steps, s.id.number ≠ id.number) :
    steps.find? (·.id == id) = none := by
  refine List.find?_eq_none.mpr fun s hs => ?_
  have ne : s.id ≠ id := fun same => h s hs (congrArg StepId.number same)
  simpa using ne

/-- Of the half that is not searched on every step has another id. -/
theorem searchWithin_eq_find? {depth : Nat}
    (rising : steps.Pairwise fun s t => s.id.number < t.id.number)
    (bound : steps.length ≤ 2 ^ depth) :
    searchWithin id depth steps = steps.find? (·.id == id) := by
  induction depth generalizing steps with
  | zero =>
    cases steps with
    | nil => rfl
    | cons s rest =>
      obtain rfl : rest = [] := by simpa using bound
      by_cases same : s.id = id <;> simp [searchWithin, Option.filter, same]
  | succ depth ih =>
    have halves : steps.take (steps.length / 2) ++ steps.drop (steps.length / 2) = steps :=
      List.take_append_drop ..
    have power : 2 ^ (depth + 1) = 2 ^ depth + 2 ^ depth := by rw [pow_succ]; omega
    have lengths : (steps.take (steps.length / 2)).length ≤ 2 ^ depth ∧
        (steps.drop (steps.length / 2)).length ≤ 2 ^ depth ∧
        (steps.take (steps.length / 2)).length ≤ (steps.drop (steps.length / 2)).length := by
      rw [List.length_take, List.length_drop]
      omega
    simp only [searchWithin]
    generalize steps.take (steps.length / 2) = lower at *
    generalize steps.drop (steps.length / 2) = upper at *
    subst halves
    obtain ⟨risingLower, risingUpper, across⟩ := List.pairwise_append.mp rising
    rw [List.find?_append, ih risingLower lengths.1, ih risingUpper lengths.2.1]
    cases upper with
    | nil =>
      obtain rfl : lower = [] := by simpa using lengths.2.2
      rfl
    | cons first rest =>
      obtain ⟨above, -⟩ := List.pairwise_cons.mp risingUpper
      by_cases below : id.number < first.id.number
      · have none : (first :: rest).find? (·.id == id) = none := by
          refine find?_eq_none_of_ne fun t ht => ?_
          rcases List.mem_cons.mp ht with rfl | ht
          · omega
          · have := above t ht
            omega
        simp [below, none]
      · have none : lower.find? (·.id == id) = none := by
          refine find?_eq_none_of_ne fun t ht => ?_
          have := across t ht first (List.mem_cons_self ..)
          omega
        simp [below, none]

/-- Halving a rising list as often as its length has binary digits is enough. -/
theorem Pipeline.find?_eq {p : Pipeline}
    (rising : p.steps.reverse.Pairwise fun s t => s.id.number < t.id.number) (id : StepId) :
    p.find? id = p.steps.reverse.find? (·.id == id) := by
  refine searchWithin_eq_find? rising ?_
  rw [List.length_reverse]
  exact Nat.le_of_lt Nat.lt_log2_self

end RecordFlow
