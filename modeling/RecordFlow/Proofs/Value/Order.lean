import RecordFlow.Proofs.Double
import RecordFlow.Value.Order

/-! The order of scalars, the values that are no lists and no records. Main statements: less is a
strict partial order on them, although whole numbers compare exactly among themselves and rounded
beside floats, and greater is less the other way round. -/

namespace RecordFlow.Value

open Double (wholeRank wholeRank_mono)

def isScalar : Value → Bool
  | .list _ | .record _ => false
  | _ => true

/-- How scalars compare, kind by kind. -/
inductive Compares (o : Ordering) : Value → Value → Prop
  | bool {a b : Bool} : compare a b = o → Compares o (.bool a) (.bool b)
  | text {a b : String} : compare a b = o → Compares o (.text a) (.text b)
  | bytes {a b : List UInt8} : compare a b = o → Compares o (.bytes a) (.bytes b)
  | whole {a b : Int64} : compare a.toInt b.toInt = o → Compares o (.int a) (.int b)
  | wholeFloat {a : Int64} {y : Double} {j : Int} :
      y.rank? = some j → compare (wholeRank a.toInt) j = o → Compares o (.int a) (.float y)
  | floatWhole {x : Double} {b : Int64} {i : Int} :
      x.rank? = some i → compare i (wholeRank b.toInt) = o → Compares o (.float x) (.int b)
  | float {x y : Double} {i j : Int} :
      x.rank? = some i → y.rank? = some j → compare i j = o → Compares o (.float x) (.float y)

variable {o : Ordering} {v w x : Value}

theorem compare?_eq_some_iff (scalar : v.isScalar = true) :
    v.compare? w = some o ↔ Compares o v w := by
  constructor
  · intro h
    fun_cases compare? v w with
    | case1 a b => exact .bool (by simpa [compare?] using h)
    | case2 a b => exact .whole (by simpa [compare?] using h)
    | case3 a y =>
      obtain ⟨i, j, at_i, at_j, same⟩ := Double.compare?_eq_some_iff.mp h
      cases (Double.rank?_ofInt a).symm.trans at_i
      exact .wholeFloat at_j same
    | case4 x b =>
      obtain ⟨i, j, at_i, at_j, same⟩ := Double.compare?_eq_some_iff.mp h
      cases (Double.rank?_ofInt b).symm.trans at_j
      exact .floatWhole at_i same
    | case5 x y =>
      obtain ⟨i, j, at_i, at_j, same⟩ := Double.compare?_eq_some_iff.mp h
      exact .float at_i at_j same
    | case6 a b => exact .text (by simpa [compare?] using h)
    | case7 a b => exact .bytes (by simpa [compare?] using h)
    | case8 a b => cases scalar
    | case9 => simp_all [compare?]
  · intro h
    cases h with
    | bool same | text same | bytes same | whole same => exact congrArg some same
    | wholeFloat at_j same =>
      exact Double.compare?_eq_some_iff.mpr ⟨_, _, Double.rank?_ofInt _, at_j, same⟩
    | floatWhole at_i same =>
      exact Double.compare?_eq_some_iff.mpr ⟨_, _, at_i, Double.rank?_ofInt _, same⟩
    | float at_i at_j same =>
      exact Double.compare?_eq_some_iff.mpr ⟨_, _, at_i, at_j, same⟩

theorem isLess_iff (scalar : v.isScalar = true) : v.isLess w = true ↔ Compares .lt v w := by
  rw [isLess, beq_iff_eq, compare?_eq_some_iff scalar]

theorem isGreater_iff (scalar : v.isScalar = true) : v.isGreater w = true ↔ Compares .gt v w := by
  rw [isGreater, beq_iff_eq, compare?_eq_some_iff scalar]

theorem swap_compare {α : Type} [Ord α] [Std.OrientedOrd α] {a b : α} (h : compare a b = o) :
    compare b a = o.swap := by
  rw [Std.OrientedOrd.eq_swap, h]

theorem Compares.swap (h : Compares o v w) : Compares o.swap w v := by
  cases h with
  | bool same => exact .bool (swap_compare same)
  | text same => exact .text (swap_compare same)
  | bytes same => exact .bytes (swap_compare same)
  | whole same => exact .whole (swap_compare same)
  | wholeFloat at_j same => exact .floatWhole at_j (swap_compare same)
  | floatWhole at_i same => exact .wholeFloat at_i (swap_compare same)
  | float at_i at_j same => exact .float at_j at_i (swap_compare same)

theorem Compares.irrefl : ¬ Compares .lt v v := by
  intro h
  cases h with
  | bool less | text less | bytes less | whole less => simp at less
  | float at_i at_j less =>
    cases at_i.symm.trans at_j
    simp at less

/-- Rounding keeps the order of whole numbers, so that nothing is lost where they meet floats. -/
theorem Compares.trans (first : Compares .lt v w) (second : Compares .lt w x) :
    Compares .lt v x := by
  cases first with
  | bool less =>
    cases second with
    | bool less' => exact .bool (Std.TransCmp.lt_trans less less')
  | text less =>
    cases second with
    | text less' => exact .text (Std.TransCmp.lt_trans less less')
  | bytes less =>
    cases second with
    | bytes less' => exact .bytes (Std.TransCmp.lt_trans less less')
  | whole less =>
    have rounded := wholeRank_mono (Int.le_of_lt (Int.compare_eq_lt.mp less))
    cases second with
    | whole less' => exact .whole (Std.TransCmp.lt_trans less less')
    | wholeFloat at_j less' =>
      rw [Int.compare_eq_lt] at less'
      exact .wholeFloat at_j (Int.compare_eq_lt.mpr (by omega))
  | wholeFloat at_j less =>
    cases second with
    | floatWhole at_i less' =>
      cases at_j.symm.trans at_i
      rw [Int.compare_eq_lt] at less less'
      refine .whole (Int.compare_eq_lt.mpr (Int.not_le.mp fun le => ?_))
      have rounded := wholeRank_mono le
      omega
    | float at_i at_j' less' =>
      cases at_j.symm.trans at_i
      exact .wholeFloat at_j' (Std.TransCmp.lt_trans less less')
  | floatWhole at_i less =>
    cases second with
    | whole less' =>
      have rounded := wholeRank_mono (Int.le_of_lt (Int.compare_eq_lt.mp less'))
      rw [Int.compare_eq_lt] at less
      exact .floatWhole at_i (Int.compare_eq_lt.mpr (by omega))
    | wholeFloat at_j less' => exact .float at_i at_j (Std.TransCmp.lt_trans less less')
  | float at_i at_j less =>
    cases second with
    | floatWhole at_i' less' =>
      cases at_j.symm.trans at_i'
      exact .floatWhole at_i (Std.TransCmp.lt_trans less less')
    | float at_i' at_j' less' =>
      cases at_j.symm.trans at_i'
      exact .float at_i at_j' (Std.TransCmp.lt_trans less less')

/-! ### Laws -/

/-- A strict partial order on scalars in which null stands before nothing. -/
structure Orders (before : Value → Value → Bool) : Prop where
  irrefl : ∀ {v : Value}, v.isScalar = true → ¬ before v v = true
  asymm : ∀ {v w : Value}, v.isScalar = true → w.isScalar = true →
    before v w = true → ¬ before w v = true
  trans : ∀ {v w x : Value}, v.isScalar = true → w.isScalar = true → x.isScalar = true →
    before v w = true → before w x = true → before v x = true
  null : ∀ {v : Value}, ¬ before .null v = true

theorem isLess_orders : Orders isLess where
  irrefl hv less := Compares.irrefl ((isLess_iff hv).mp less)
  asymm hv hw less less' :=
    Compares.irrefl (((isLess_iff hv).mp less).trans ((isLess_iff hw).mp less'))
  trans hv hw _ less less' :=
    (isLess_iff hv).mpr (((isLess_iff hv).mp less).trans ((isLess_iff hw).mp less'))
  null less := nomatch (isLess_iff rfl).mp less

theorem isGreater_iff_isLess (hv : v.isScalar = true) (hw : w.isScalar = true) :
    v.isGreater w = true ↔ w.isLess v = true := by
  rw [isLess_iff hw, isGreater_iff hv]
  exact ⟨Compares.swap, Compares.swap⟩

theorem isGreater_orders : Orders isGreater where
  irrefl hv greater := isLess_orders.irrefl hv ((isGreater_iff_isLess hv hv).mp greater)
  asymm hv hw greater greater' := isLess_orders.asymm hw hv
    ((isGreater_iff_isLess hv hw).mp greater) ((isGreater_iff_isLess hw hv).mp greater')
  trans hv hw hx greater greater' := (isGreater_iff_isLess hv hx).mpr
    (isLess_orders.trans hx hw hv ((isGreater_iff_isLess hw hx).mp greater')
      ((isGreater_iff_isLess hv hw).mp greater))
  null greater := nomatch (isGreater_iff rfl).mp greater

/-- Whole numbers count exactly among themselves and rounded beside floats. -/
structure Rounds (less : Value → Value → Bool) : Prop where
  whole : ∀ m n : Int64, less (.int m) (.int n) = true ↔ m.toInt < n.toInt
  before : ∀ (n : Int64) (x : Double), less (.int n) (.float x) = less (.float (.ofInt n)) (.float x)
  after : ∀ (n : Int64) (x : Double), less (.float x) (.int n) = less (.float x) (.float (.ofInt n))

theorem isLess_rounds : Rounds isLess where
  whole m n := by rw [isLess, beq_iff_eq, compare?, Option.some.injEq, Int.compare_eq_lt]
  before n x := by simp only [isLess, compare?]
  after n x := by simp only [isLess, compare?]

end RecordFlow.Value
