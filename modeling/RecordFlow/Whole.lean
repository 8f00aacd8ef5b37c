/-! Whole numbers that fit in 64 bits with a sign. -/

namespace RecordFlow.Whole

/-- The number of 64 bits that has a value, if there is one. -/
def ofInt? (n : Int) : Option Int64 :=
  if Int64.minValue.toInt ≤ n ∧ n ≤ Int64.maxValue.toInt then some (.ofInt n) else none

theorem ofInt?_eq_some_iff {n : Int} {k : Int64} : ofInt? n = some k ↔ k.toInt = n := by
  unfold ofInt?
  constructor
  · intro h
    split at h
    · next bounds =>
      cases h
      have high := bounds.2
      rw [Int64.toInt_maxValue] at high
      exact Int64.toInt_ofInt_of_le (by simpa using bounds.1) (by omega)
    · cases h
  · rintro rfl
    have low := Int64.minValue_le_toInt k
    have high := Int64.toInt_le k
    rw [if_pos ⟨by simpa using low, by simpa using high⟩, Int64.ofInt_toInt]

end RecordFlow.Whole
