import RecordFlow.Usage

/-! What sets of fields list, and what a union of them holds. -/

namespace RecordFlow.FieldSets

/-- Whether a field is listed for a record type. -/
def lists (s : FieldSets) (type field : String) : Bool :=
  s.entries.any fun (t, set) => t == type && decide (field ∈ set)

/-- Whether anything, be it no field, is listed for a record type. -/
def mentions (s : FieldSets) (type : String) : Bool := s.entries.any fun (t, _) => t == type

/-- Whether a look-up finds a field. -/
def Has (s : FieldSets) (type field : String) : Prop :=
  ∃ set, s.find? type = some set ∧ field ∈ set

theorem not_mem_empty {name : String} : ¬ name ∈ NameSet.empty := by
  intro h
  cases h

theorem lookup_addIn (type t : String) (fields : List String)
    (entries : List (String × NameSet)) :
    (addIn type fields entries).lookup t =
      if t = type then some (((entries.lookup type).getD .empty).insertAll fields)
      else entries.lookup t := by
  have unlike {a b : String} (h : a ≠ b) : (a == b) = false := beq_eq_false_iff_ne.mpr h
  induction entries with
  | nil =>
    simp only [addIn, List.lookup_cons]
    by_cases same : t = type
    · simp [same]
    · simp [unlike same, same]
  | cons e rest ih =>
    obtain ⟨u, set⟩ := e
    unfold addIn
    split
    · next found =>
      subst found
      simp only [List.lookup_cons]
      by_cases same : t = u
      · simp [same]
      · simp only [unlike same, if_neg same]
    · next other =>
      simp only [List.lookup_cons, ih, unlike (Ne.symm other)]
      by_cases same : t = u
      · simp [same, other]
      · simp only [unlike same]

theorem find?_add (s : FieldSets) (type t : String) (fields : List String) :
    (s.add type fields).find? t =
      if t = type then some (((s.find? type).getD .empty).insertAll fields) else s.find? t :=
  lookup_addIn type t fields s.entries

theorem isSome_find?_add {s : FieldSets} {type t : String} {fields : List String} :
    ((s.add type fields).find? t).isSome ↔ t = type ∨ (s.find? t).isSome := by
  rw [find?_add]
  by_cases h : t = type <;> simp [h]

theorem has_add {s : FieldSets} {type t field : String} {fields : List String} :
    (s.add type fields).Has t field ↔ (t = type ∧ field ∈ fields) ∨ s.Has t field := by
  unfold Has
  rw [find?_add]
  by_cases h : t = type
  · subst h
    simp only [if_true, Option.some.injEq, exists_eq_left', NameSet.mem_insertAll, true_and]
    cases s.find? t with
    | none => simp [not_mem_empty]
    | some set => simp
  · simp [h]

theorem mentions_add {s : FieldSets} {type t : String} {fields : List String} :
    (s.add type fields).mentions t = true ↔ t = type ∨ s.mentions t = true := by
  obtain ⟨entries⟩ := s
  simp only [mentions, add, @eq_comm _ t]
  induction entries with
  | nil => simp [addIn]
  | cons e rest ih =>
    obtain ⟨u, set⟩ := e
    unfold addIn
    split
    · next found =>
      subst found
      simp
    · simp only [List.any_cons, Bool.or_eq_true, ih, or_left_comm]

theorem lists_add {s : FieldSets} {type t field : String} {fields : List String} :
    (s.add type fields).lists t field = true ↔
      (t = type ∧ field ∈ fields) ∨ s.lists t field = true := by
  obtain ⟨entries⟩ := s
  simp only [lists, add, @eq_comm _ t]
  induction entries with
  | nil => simp [addIn, NameSet.mem_insertAll, not_mem_empty]
  | cons e rest ih =>
    obtain ⟨u, set⟩ := e
    unfold addIn
    split
    · next found =>
      subst found
      simp only [List.any_cons, Bool.or_eq_true, Bool.and_eq_true, beq_iff_eq, decide_eq_true_eq,
        NameSet.mem_insertAll, and_or_left, or_assoc]
    · simp only [List.any_cons, Bool.or_eq_true, ih, or_left_comm]

/-! ### Unions -/

theorem isSome_find?_union {s t : FieldSets} {type : String} :
    ((s.union t).find? type).isSome ↔ t.mentions type = true ∨ (s.find? type).isSome := by
  obtain ⟨entries⟩ := t
  unfold union mentions
  induction entries generalizing s with
  | nil => simp
  | cons e rest ih =>
    simp only [List.foldl_cons, ih, isSome_find?_add, List.any_cons, Bool.or_eq_true,
      beq_iff_eq]
    rw [@eq_comm _ type, or_left_comm, or_assoc]

theorem has_union {s t : FieldSets} {type field : String} :
    (s.union t).Has type field ↔ t.lists type field = true ∨ s.Has type field := by
  obtain ⟨entries⟩ := t
  unfold union lists
  induction entries generalizing s with
  | nil => simp
  | cons e rest ih =>
    obtain ⟨u, set⟩ := e
    have hmem : field ∈ set.toList ↔ field ∈ set := Iff.rfl
    simp only [List.foldl_cons, ih, has_add, List.any_cons, Bool.or_eq_true, Bool.and_eq_true,
      beq_iff_eq, decide_eq_true_eq, hmem]
    rw [@eq_comm _ type u, or_left_comm, or_assoc]

end RecordFlow.FieldSets
