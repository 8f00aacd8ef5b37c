import RecordFlow.Whole

/-! The integers that are numbers of 64 bits with a sign. -/

namespace RecordFlow.Whole

/-- The integer fits in 64 bits with a sign. -/
def Within (n : Int) : Prop := Int64.minValue.toInt ≤ n ∧ n ≤ Int64.maxValue.toInt

instance (n : Int) : Decidable (Within n) := inferInstanceAs (Decidable (_ ∧ _))

theorem within_toInt (n : Int64) : Within n.toInt := ⟨n.minValue_le_toInt, n.toInt_le⟩

/-- Numbers of 32 bits fit in 64. -/
theorem within_of_int32 {n : Int} (h : Int32.minValue.toInt ≤ n ∧ n ≤ Int32.maxValue.toInt) :
    Within n := by
  obtain ⟨low, high⟩ := h
  rw [Int32.toInt_minValue] at low
  rw [Int32.toInt_maxValue] at high
  rw [Within, Int64.toInt_minValue, Int64.toInt_maxValue]
  omega

theorem ofInt?_eq_none_iff {n : Int} : ofInt? n = none ↔ ¬ Within n := by
  unfold ofInt? Within
  split <;> simp_all

/-- Within the range nothing is lost. -/
theorem toInt_ofInt {n : Int} (h : Within n) : (Int64.ofInt n).toInt = n :=
  ofInt?_eq_some_iff.mp (if_pos h)

theorem exists_of_within {n : Int} (h : Within n) : ∃ k, ofInt? n = some k ∧ k.toInt = n :=
  ⟨_, if_pos h, toInt_ofInt h⟩

end RecordFlow.Whole
