import RecordFlow.StepId

/-! What is known of some steps, in increasing order of their ids. -/

namespace RecordFlow

structure StepMap (α : Type) where
  entries : List (StepId × α)

namespace StepMap

variable {α β : Type}

def empty : StepMap α := ⟨[]⟩

def find? (m : StepMap α) (id : StepId) : Option α := m.entries.lookup id

def contains (m : StepMap α) (id : StepId) : Bool := (m.find? id).isSome

def size (m : StepMap α) : Nat := m.entries.length

def insertIn (id : StepId) (a : α) : List (StepId × α) → List (StepId × α)
  | [] => [(id, a)]
  | (i, b) :: rest =>
    if id.number < i.number then (id, a) :: (i, b) :: rest
    else if id = i then (id, a) :: rest
    else (i, b) :: insertIn id a rest

/-- Sets what is known of a step. -/
def insert (m : StepMap α) (id : StepId) (a : α) : StepMap α := ⟨insertIn id a m.entries⟩

def map (m : StepMap α) (f : α → β) : StepMap β := ⟨m.entries.map fun (id, a) => (id, f a)⟩

theorem lookup_insertIn (id i : StepId) (a : α) (entries : List (StepId × α)) :
    (insertIn id a entries).lookup i = if i = id then some a else entries.lookup i := by
  induction entries with
  | nil => simp only [insertIn, List.lookup_cons]; grind
  | cons e rest ih =>
    obtain ⟨j, b⟩ := e
    unfold insertIn
    split
    · simp only [List.lookup_cons]; grind
    · split
      · simp only [List.lookup_cons]; grind
      · simp only [List.lookup_cons, ih]; grind

theorem find?_insert (m : StepMap α) (id i : StepId) (a : α) :
    (m.insert id a).find? i = if i = id then some a else m.find? i :=
  lookup_insertIn id i a m.entries

theorem find?_map (m : StepMap α) (f : α → β) (id : StepId) :
    (m.map f).find? id = (m.find? id).map f := by
  obtain ⟨entries⟩ := m
  simp only [map, find?]
  induction entries with
  | nil => rfl
  | cons e rest ih =>
    obtain ⟨i, a⟩ := e
    rw [List.map_cons, List.lookup_cons, List.lookup_cons, ih]
    cases id == i <;> rfl

/-! ### Increasing ids -/

def Sorted (m : StepMap α) : Prop := m.entries.Pairwise fun e f => e.1.number < f.1.number

theorem sorted_empty : (empty : StepMap α).Sorted := .nil

theorem mem_insertIn {id : StepId} {a : α} {entries : List (StepId × α)} {e : StepId × α}
    (h : e ∈ insertIn id a entries) : e = (id, a) ∨ e ∈ entries := by
  fun_induction insertIn id a entries <;> grind

theorem Sorted.insert {m : StepMap α} (h : m.Sorted) (id : StepId) (a : α) :
    (m.insert id a).Sorted := by
  obtain ⟨entries⟩ := m
  simp only [Sorted, StepMap.insert] at h ⊢
  induction entries with
  | nil => exact List.pairwise_singleton _ _
  | cons e rest ih =>
    obtain ⟨i, b⟩ := e
    obtain ⟨above, later⟩ := List.pairwise_cons.mp h
    unfold insertIn
    split
    · next lt =>
      refine List.pairwise_cons.mpr ⟨fun f hf => ?_, h⟩
      rcases List.mem_cons.mp hf with rfl | hf
      · exact lt
      · exact Nat.lt_trans lt (above f hf)
    · split
      · next same =>
        subst same
        exact List.pairwise_cons.mpr ⟨above, later⟩
      · next ge ne =>
        have gt : i.number < id.number := by
          have : id.number ≠ i.number := fun he => ne (by cases id; cases i; simp_all)
          omega
        refine List.pairwise_cons.mpr ⟨fun f hf => ?_, ih later⟩
        rcases mem_insertIn hf with rfl | hf
        · exact gt
        · exact above f hf

theorem Sorted.map {m : StepMap α} (h : m.Sorted) (f : α → β) : (m.map f).Sorted :=
  List.pairwise_map.mpr h

theorem lookup_eq_none_of_lt {id : StepId} {entries : List (StepId × α)}
    (h : ∀ e ∈ entries, id.number < e.1.number) : entries.lookup id = none := by
  refine List.lookup_eq_none_iff.mpr fun e he => ?_
  have lt := h e he
  exact bne_iff_ne.mpr fun same => Nat.lt_irrefl e.1.number (same ▸ lt)

/-- Two maps in which every step is found alike are equal. -/
theorem Sorted.ext {m m' : StepMap α} (h : m.Sorted) (h' : m'.Sorted)
    (same : ∀ id, m.find? id = m'.find? id) : m = m' := by
  obtain ⟨entries⟩ := m
  obtain ⟨entries'⟩ := m'
  simp only [Sorted, find?, StepMap.mk.injEq] at h h' same ⊢
  induction entries generalizing entries' with
  | nil =>
    cases entries' with
    | nil => rfl
    | cons f rest' =>
      obtain ⟨j, b⟩ := f
      simpa using same j
  | cons e rest ih =>
    obtain ⟨i, a⟩ := e
    obtain ⟨above, later⟩ := List.pairwise_cons.mp h
    cases entries' with
    | nil => simpa using same i
    | cons f rest' =>
      obtain ⟨j, b⟩ := f
      obtain ⟨above', later'⟩ := List.pairwise_cons.mp h'
      -- An id that only one list starts with lies below all of the other.
      have first : i = j := by
        rcases Nat.lt_trichotomy i.number j.number with lt | eq | gt
        · have missing : ((j, b) :: rest').lookup i = none := lookup_eq_none_of_lt fun e he => by
            rcases List.mem_cons.mp he with rfl | he
            · exact lt
            · exact Nat.lt_trans lt (above' e he)
          have := same i
          simp [missing] at this
        · cases i; cases j; simp_all
        · have missing : ((i, a) :: rest).lookup j = none := lookup_eq_none_of_lt fun e he => by
            rcases List.mem_cons.mp he with rfl | he
            · exact gt
            · exact Nat.lt_trans gt (above e he)
          have := same j
          simp [missing] at this
      subst first
      have value : a = b := by simpa using same i
      rw [value, ih later rest' later' fun id => ?_]
      by_cases hid : id = i
      · subst hid
        rw [lookup_eq_none_of_lt above, lookup_eq_none_of_lt above']
      · simpa [List.lookup_cons, beq_eq_false_iff_ne.mpr hid] using same id

end StepMap

end RecordFlow
