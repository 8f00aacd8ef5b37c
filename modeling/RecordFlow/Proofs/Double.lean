import RecordFlow.Double

/-! Rounding and order of binary64 numbers. Main statements: integers keep their order when they are
rounded, and numbers are ordered by rank, a NaN standing outside the order. -/

namespace RecordFlow.Double

/-! ### Rounding -/

theorem roundDiv_mem (num den : Nat) :
    num / den ≤ roundDiv num den ∧ roundDiv num den ≤ num / den + 1 := by
  simp only [roundDiv]
  split <;> omega

theorem roundDiv_mono {num num' : Nat} (den : Nat) (h : num ≤ num') :
    roundDiv num den ≤ roundDiv num' den := by
  have low : num / den ≤ num' / den := Nat.div_le_div_right h
  rcases Nat.lt_or_eq_of_le low with less | same
  · have := (roundDiv_mem num den).2
    have := (roundDiv_mem num' den).1
    omega
  · -- Above one multiple of the divisor the rests are in the order of the dividends.
    have rest : num % den ≤ num' % den := by
      have := Nat.div_add_mod num den
      have := Nat.div_add_mod num' den
      rw [same] at *
      omega
    simp only [roundDiv, same]
    split <;> split <;> omega

theorem pow_log2_le {n : Nat} (h : n ≠ 0) : Nat.pow 2 n.log2 ≤ n := Nat.log2_self_le h

theorem lt_pow_log2 (n : Nat) : n < 2 * Nat.pow 2 n.log2 := by
  have := @Nat.lt_log2_self n
  rw [Nat.pow_succ'] at this
  exact this

/-- A significand has its highest bit, or is the next power of two. -/
theorem roundDiv_log2 {n : Nat} (h : n ≠ 0) :
    unit ≤ roundDiv (n * unit) (Nat.pow 2 n.log2) ∧
      roundDiv (n * unit) (Nat.pow 2 n.log2) ≤ 2 * unit := by
  have bounds := roundDiv_mem (n * unit) (Nat.pow 2 n.log2)
  have positive : 0 < Nat.pow 2 n.log2 := Nat.two_pow_pos _
  have low : unit ≤ n * unit / Nat.pow 2 n.log2 := by
    rw [Nat.le_div_iff_mul_le positive, Nat.mul_comm]
    exact Nat.mul_le_mul_right _ (pow_log2_le h)
  have high : n * unit / Nat.pow 2 n.log2 < 2 * unit := by
    rw [Nat.div_lt_iff_lt_mul positive, Nat.mul_right_comm]
    exact Nat.mul_lt_mul_of_pos_right (lt_pow_log2 n) (by decide)
  omega

/-- Whole numbers of one length lie within one exponent. -/
theorem wholeMagnitude_mem {n : Nat} (h : n ≠ 0) :
    (n.log2 + 1023) * unit ≤ wholeMagnitude n ∧ wholeMagnitude n ≤ (n.log2 + 1024) * unit := by
  have := roundDiv_log2 h
  rw [wholeMagnitude, if_neg h]
  simp only [Nat.add_mul]
  omega

theorem wholeMagnitude_mono {n n' : Nat} (h : n ≤ n') : wholeMagnitude n ≤ wholeMagnitude n' := by
  by_cases zero : n = 0
  · rw [wholeMagnitude, if_pos zero]
    exact Nat.zero_le _
  have zero' : n' ≠ 0 := by omega
  have length : n.log2 ≤ n'.log2 :=
    (Nat.le_log2 zero').mpr (Nat.le_trans (Nat.log2_self_le zero) h)
  rcases Nat.lt_or_eq_of_le length with less | same
  · have below := (wholeMagnitude_mem zero).2
    have above := (wholeMagnitude_mem zero').1
    have : (n.log2 + 1024) * unit ≤ (n'.log2 + 1023) * unit := Nat.mul_le_mul_right _ (by omega)
    omega
  · rw [wholeMagnitude, wholeMagnitude, if_neg zero, if_neg zero', same]
    exact Nat.add_le_add_left (roundDiv_mono _ (Nat.mul_le_mul_right _ h)) _

/-- Whole numbers of 64 bits are finite. -/
theorem wholeMagnitude_lt {n : Nat} (h : n ≤ 0x8000000000000000) :
    wholeMagnitude n < infiniteMagnitude := by
  have largest : wholeMagnitude 0x8000000000000000 < infiniteMagnitude := by decide +kernel
  exact Nat.lt_of_le_of_lt (wholeMagnitude_mono h) largest

/-! ### Ranks -/

/-- The rank of an integer once it is rounded. -/
def wholeRank (n : Int) : Int :=
  if n < 0 then -(wholeMagnitude n.natAbs : Int) else wholeMagnitude n.natAbs

theorem wholeRank_mono {m n : Int} (h : m ≤ n) : wholeRank m ≤ wholeRank n := by
  unfold wholeRank
  split <;> split
  · have := @wholeMagnitude_mono n.natAbs m.natAbs (by omega)
    omega
  · omega
  · omega
  · have := @wholeMagnitude_mono m.natAbs n.natAbs (by omega)
    omega

/-- A finite magnitude below the sign is the rank, up to the sign. -/
theorem rank?_signed {size : Nat} (finite : size < infiniteMagnitude) (negative : Prop)
    [Decidable negative] :
    (Double.mk (.ofNat (if negative then signBit + size else size))).rank? =
      some (if negative then -(size : Int) else size) := by
  have small : infiniteMagnitude < signBit := by decide
  have twice : signBit + signBit = UInt64.size := by decide
  have bits : (UInt64.ofNat (if negative then signBit + size else size)).toNat =
      if negative then signBit + size else size := by
    apply UInt64.toNat_ofNat_of_lt'
    split <;> omega
  have size_mod : size % signBit = size := Nat.mod_eq_of_lt (by omega)
  unfold rank? isNaN isNegative magnitude
  rw [bits]
  split
  · rw [Nat.add_mod_left, size_mod, decide_eq_false (by omega), decide_eq_true (by omega)]
    rfl
  · rw [size_mod, decide_eq_false (by omega), decide_eq_false (by omega)]
    rfl

theorem rank?_ofInt (n : Int64) : (ofInt n).rank? = some (wholeRank n.toInt) := by
  have low := n.minValue_le_toInt
  have high := n.toInt_le
  rw [Int64.toInt_minValue] at low
  rw [Int64.toInt_maxValue] at high
  exact rank?_signed (wholeMagnitude_lt (by omega)) _

/-! ### Order -/

theorem compare?_eq_some_iff {x y : Double} {o : Ordering} :
    x.compare? y = some o ↔ ∃ i j, x.rank? = some i ∧ y.rank? = some j ∧ compare i j = o := by
  unfold compare?
  cases x.rank? <;> cases y.rank? <;> simp

end RecordFlow.Double
