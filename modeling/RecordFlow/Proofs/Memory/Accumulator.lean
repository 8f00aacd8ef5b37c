import Mathlib.Data.List.Induction
import RecordFlow.Memory.Accumulator

/-! What an accumulator holds after a column of values. Main statement: the value of a field is what
its kind makes of all values of the column, nulls left out where they do not count. -/

namespace RecordFlow.Accumulator

theorem eraseDups_concat {α : Type} [BEq α] [LawfulBEq α] (xs : List α) (x : α) :
    (xs ++ [x]).eraseDups = if x ∈ xs then xs.eraseDups else xs.eraseDups ++ [x] := by
  rw [List.eraseDups_append]
  by_cases h : x ∈ xs <;> simp [List.removeAll, List.eraseDups_cons, h]

theorem foldl_addDistinct (values : List Value) :
    values.foldl addDistinct [] = values.eraseDups := by
  induction values using List.reverseRecOn with
  | nil => rfl
  | append_singleton values v ih =>
    rw [List.foldl_append, List.foldl_cons, List.foldl_nil, ih, eraseDups_concat, addDistinct]
    simp only [List.mem_eraseDups]

/-- The values that are not null. -/
def present (values : List Value) : List Value := values.filter (!·.isNull)

/-- Where nulls leave a state alone, what is kept is kept of the other values. -/
theorem foldl_add_present {σ : Type} {hold : σ → Accumulator} (next : σ → Value → σ)
    (step : ∀ s v, (hold s).add v = if v.isNull then hold s else hold (next s v))
    (values : List Value) (s : σ) :
    values.foldl add (hold s) = hold ((present values).foldl next s) := by
  induction values generalizing s with
  | nil => rfl
  | cons v rest ih =>
    rw [List.foldl_cons, step, present, List.filter_cons]
    cases v.isNull with
    | true => exact ih s
    | false => exact ih (next s v)

theorem foldl_add_count (values : List Value) (n : Nat) :
    values.foldl add (.count n) = .count (n + (present values).length) := by
  rw [foldl_add_present (fun n _ => n + 1) fun _ _ => rfl, List.foldl_add_const, Nat.one_mul]

theorem foldl_add_toSet (values : List Value) :
    values.foldl add (.toSet []) = .toSet (present values).eraseDups := by
  rw [foldl_add_present addDistinct fun _ _ => rfl, foldl_addDistinct]

theorem foldl_add_countDistinct (values : List Value) :
    values.foldl add (.countDistinct []) = .countDistinct (present values).eraseDups := by
  rw [foldl_add_present addDistinct fun _ _ => rfl, foldl_addDistinct]

theorem foldl_add_toArray (values kept : List Value) :
    values.foldl add (.toArray kept) = .toArray (kept ++ values) := by
  induction values generalizing kept with
  | nil => rw [List.append_nil]; rfl
  | cons v rest ih => rw [List.foldl_cons, add, ih, List.append_assoc]; rfl

theorem foldl_add_key {k : Value} {values : List Value} (same : ∀ v ∈ values, v = k)
    (some : values ≠ []) (before : Value) : values.foldl add (.key before) = .key k := by
  induction values generalizing before with
  | nil => exact absurd rfl some
  | cons v rest ih =>
    obtain ⟨rfl, same⟩ := List.forall_mem_cons.mp same
    rcases rest with _ | ⟨w, rest⟩
    · rfl
    · exact ih same (List.cons_ne_nil w rest) v

/-- What a kind makes of the values of a field in a group with the key `key` at that field. -/
def ofColumn (kind : AggregationKind) (key : Value) (values : List Value) : Value :=
  match kind with
  | .groupBy => key
  | .count => .int (.ofNat (present values).length)
  | .toArray => .list values
  | .toSet => .list (present values).eraseDups
  | .countDistinct => .int (.ofNat (present values).eraseDups.length)
  | .min | .max | .sum | .mean => (values.foldl add (.fresh kind)).value

theorem value_foldl_add {kind : AggregationKind} {key : Value} {values : List Value}
    (keyed : kind = .groupBy → (∀ v ∈ values, v = key) ∧ values ≠ []) :
    (values.foldl add (.fresh kind)).value = ofColumn kind key values := by
  cases kind with
  | groupBy =>
    obtain ⟨same, some⟩ := keyed rfl
    rw [fresh, foldl_add_key same some]
    rfl
  | count => rw [fresh, foldl_add_count, Nat.zero_add]; rfl
  | toArray => rw [fresh, foldl_add_toArray]; rfl
  | toSet => rw [fresh, foldl_add_toSet]; rfl
  | countDistinct => rw [fresh, foldl_add_countDistinct]; rfl
  | min | max | sum | mean => rfl

end RecordFlow.Accumulator
