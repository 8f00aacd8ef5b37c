import RecordFlow.Memory.Matching
import RecordFlow.Proofs.Evaluation

/-! Joins as nested loops: for every record of the left side each side of the join is scanned from its
first source to its last. Main statement: the join through indexes makes the same records and fails on
the same one, the first that some side with at most one match has more matches for. -/

namespace RecordFlow.Memory

/-- Whether a record of the right side has a key; null is no key. -/
def hasKey (key : Record → Value) (k : Value) (r : Record) : Bool := !k.isNull && key r = k

/-- What a scan of the right side finds for a key: source by source the records that have it, each
with the position of its source. -/
def scan (input : JoinInput (List Record)) (k : Value) : List Match :=
  input.sources.zipIdx.flatMap fun source =>
    (source.1.filter (hasKey input.key k)).map (⟨source.2, ·⟩)

/-- At most one record may match, and more do. -/
def Ambiguous (k : Value) (input : JoinInput (List Record)) : Prop :=
  input.kind = .single ∧ 2 ≤ (scan input k).length

instance (k : Value) (input : JoinInput (List Record)) : Decidable (Ambiguous k input) :=
  inferInstanceAs (Decidable (_ ∧ _))

/-- Sets the fields of a join: the one match or null, else all matches, and beside them the positions
of their sources where these are asked for. -/
def fill (input : JoinInput (List Record)) (found : List Match) (r : Record) : Record :=
  let records := Value.list (found.map fun m => .record m.record)
  match input.kind, input.indexField with
  | .single, _ => r.set input.field (found.head?.elim .null fun m => .record m.record)
  | .multi, _ | .multiArray, none => r.set input.field records
  | .multiArray, some field =>
    (r.set input.field records).set field (.list (found.map fun m => .int (.ofNat m.ordinal)))

/-- A record of the left side on which every join has set its fields, one after the other. -/
def fillAll (inputs : List (JoinInput (List Record))) (k : Value) (r : Record) : Record :=
  inputs.foldl (fun r input => fill input (scan input k) r) r

/-! ### Indexes -/

namespace Index

theorem lookup_addIn (key k : Value) (m : Match) (entries : List (Value × List Match)) :
    ((addIn key m entries).lookup k).getD [] =
      (entries.lookup k).getD [] ++ if key = k then [m] else [] := by
  induction entries with
  | nil =>
    rw [addIn, List.lookup_cons]
    by_cases h : key = k
    · simp [h]
    · rw [beq_eq_false_iff_ne.mpr (Ne.symm h), if_neg h]
      rfl
  | cons entry rest ih =>
    obtain ⟨k', ms⟩ := entry
    unfold addIn
    split
    · next same =>
      subst same
      rw [List.lookup_cons, List.lookup_cons]
      by_cases h : k' = k
      · simp [h]
      · simp [beq_eq_false_iff_ne.mpr (Ne.symm h), h]
    · next ne =>
      rw [List.lookup_cons, List.lookup_cons]
      by_cases h : k = k'
      · subst h
        simp [Ne.symm ne]
      · simpa only [beq_eq_false_iff_ne.mpr h] using ih

/-- A record is found under its own key, after those added before, unless the key is null. -/
theorem find_add (i : Index) (key : Record → Value) (ordinal : Nat) (r : Record) (k : Value) :
    (i.add (key r) ⟨ordinal, r⟩).find k =
      i.find k ++ if hasKey key k r then [⟨ordinal, r⟩] else [] := by
  unfold add
  split
  · next null =>
    have other : hasKey key k r = false := by
      unfold hasKey
      by_cases h : key r = k
      · simp [← h, null]
      · simp [h]
    simp [other]
  · next present =>
    have same : hasKey key k r = decide (key r = k) := by
      unfold hasKey
      by_cases h : key r = k
      · simp [← h, present]
      · simp [h]
    simpa [same, find] using lookup_addIn (key r) k ⟨ordinal, r⟩ i.entries

theorem find_addSource (key : Record → Value) (ordinal : Nat) (k : Value) (source : List Record)
    (i : Index) : (source.foldl (fun i r => i.add (key r) ⟨ordinal, r⟩) i).find k =
      i.find k ++ (source.filter (hasKey key k)).map (⟨ordinal, ·⟩) := by
  induction source generalizing i with
  | nil => simp
  | cons r rest ih =>
    rw [List.foldl_cons, ih, find_add, List.append_assoc, List.filter_cons]
    cases hasKey key k r <;> rfl

theorem find_addSources (key : Record → Value) (k : Value) (sources : List (List Record))
    (ordinal : Nat) (i : Index) : (addSources key ordinal sources i).find k =
      i.find k ++ (sources.zipIdx ordinal).flatMap fun source =>
        (source.1.filter (hasKey key k)).map (⟨source.2, ·⟩) := by
  induction sources generalizing ordinal i with
  | nil => simp [addSources]
  | cons source rest ih =>
    rw [addSources, ih, find_addSource, List.zipIdx_cons, List.flatMap_cons, List.append_assoc]

/-- The index of the right side finds what a scan of it finds. -/
theorem find_build (input : JoinInput (List Record)) (k : Value) :
    (build input).find k = scan input k :=
  find_addSources input.key k input.sources 0 ⟨[]⟩

end Index

/-! ### Scans -/

/-- The matches of a key in one side of a join. -/
structure Scans (input : JoinInput (List Record)) (k : Value) (found : List Match) : Prop where
  /-- All records that have the key, by source and within a source by row. -/
  records : found.map (·.record) = input.sources.flatten.filter (hasKey input.key k)
  /-- The positions of their sources do not fall. -/
  ordered : (found.map (·.ordinal)).Pairwise (· ≤ ·)
  /-- The matches with the position of a source are those of its records that have the key. -/
  origin : ∀ ordinal, (found.filter (·.ordinal == ordinal)).map (·.record) =
    (input.sources.getD ordinal []).filter (hasKey input.key k)
  /-- Null on either side matches nothing. -/
  keyed : ∀ m ∈ found, input.key m.record = k ∧ k ≠ .null

/-- Of what is made at all positions, what is made at one. -/
theorem flatMap_zipIdx_at {α β : Type} (f : α → List β) (xs : List α) (start n : Nat) :
    ((xs.zipIdx start).flatMap fun x => if x.2 = start + n then f x.1 else []) =
      (xs[n]?.map f).getD [] := by
  induction xs generalizing start n with
  | nil => rfl
  | cons x rest ih =>
    rw [List.zipIdx_cons, List.flatMap_cons]
    cases n with
    | zero =>
      have later : ∀ y ∈ rest.zipIdx (start + 1),
          (if y.2 = start + 0 then f y.1 else []) = [] := fun y hy => by
        have := (List.mem_zipIdx hy).1
        rw [if_neg (by omega)]
      rw [List.flatMap_eq_nil_iff.mpr later, List.append_nil]
      exact if_pos rfl
    | succ n =>
      have shift : start + (n + 1) = start + 1 + n := by omega
      rw [if_neg (by simp), List.nil_append, List.getElem?_cons_succ, ← ih (start + 1) n, shift]

theorem isNull_iff {v : Value} : v.isNull = true ↔ v = .null := by
  cases v <;> simp [Value.isNull]

theorem hasKey_iff {key : Record → Value} {k : Value} {r : Record} :
    hasKey key k r = true ↔ key r = k ∧ k ≠ .null := by
  rw [hasKey, Bool.and_eq_true, Bool.not_eq_true', decide_eq_true_iff, and_comm,
    ← Bool.not_eq_true, isNull_iff]

theorem scan_scans (input : JoinInput (List Record)) (k : Value) :
    Scans input k (scan input k) where
  records := by
    simp only [scan, List.map_flatMap, List.map_map, Function.comp_def, List.map_id']
    rw [← List.flatMap_map Prod.fst, List.zipIdx_map_fst, List.filter_flatten, List.flatMap_def]
  ordered := by
    have rising : input.sources.zipIdx.Pairwise (·.2 < ·.2) := by
      rw [← List.pairwise_map (R := (· < ·)), List.zipIdx_map_snd]
      exact List.pairwise_lt_range' 1
    rw [List.pairwise_map, scan, List.pairwise_flatMap]
    refine ⟨fun source _ => ?_, rising.imp fun lt m hm m' hm' => ?_⟩
    · exact List.pairwise_map.mpr (List.pairwise_of_forall fun _ _ => Nat.le_refl _)
    · obtain ⟨_, -, rfl⟩ := List.mem_map.mp hm
      obtain ⟨_, -, rfl⟩ := List.mem_map.mp hm'
      exact Nat.le_of_lt lt
  origin n := by
    have here (source : List Record × Nat) :
        (((source.1.filter (hasKey input.key k)).map (Match.mk source.2)).filter
          (·.ordinal == n)).map (·.record) =
          if source.2 = 0 + n then source.1.filter (hasKey input.key k) else [] := by
      by_cases h : source.2 = n <;> simp [h, List.filter_map, Function.comp_def]
    simp only [scan, List.filter_flatMap, List.map_flatMap, here]
    rw [flatMap_zipIdx_at (List.filter (hasKey input.key k)), List.getD_eq_getElem?_getD]
    cases input.sources[n]? <;> rfl
  keyed m hm := by
    obtain ⟨source, -, hm⟩ := List.mem_flatMap.mp hm
    obtain ⟨r, hr, rfl⟩ := List.mem_map.mp hm
    exact hasKey_iff.mp (List.mem_filter.mp hr).2

/-! ### Joined records -/

/-- The first side of a join that is ambiguous refuses the record. -/
def refusal? (inputs : List (JoinInput (List Record))) (k : Value) : Option Error :=
  (inputs.find? fun input => Ambiguous k input).map fun input =>
    .manyMatches input.field (scan input k).length k

theorem attach_found (input : JoinInput (List Record)) (k : Value) (found : List Match)
    (r : Record) : attach input k found r =
      if input.kind = .single ∧ 2 ≤ found.length then
        .error (.manyMatches input.field found.length k)
      else .ok (fill input found r) := by
  unfold attach fill
  cases input.kind with
  | single => rcases found with _ | ⟨m, _ | ⟨m', rest⟩⟩ <;> simp
  | multi => simp
  | multiArray => cases input.indexField <;> simp

theorem attach_eq (input : JoinInput (List Record)) (k : Value) (r : Record) :
    attach input k (scan input k) r = if Ambiguous k input then
      .error (.manyMatches input.field (scan input k).length k)
    else .ok (fill input (scan input k) r) :=
  attach_found input k (scan input k) r

theorem attachAll_eq (inputs : List (JoinInput (List Record))) (k : Value) (r : Record) :
    attachAll k (inputs.map fun input => (input, Index.build input)) r =
      (refusal? inputs k).elim (.ok (fillAll inputs k r)) .error := by
  induction inputs generalizing r with
  | nil => rfl
  | cons input rest ih =>
    rw [List.map_cons, attachAll, Index.find_build, attach_eq, refusal?, List.find?_cons]
    by_cases h : Ambiguous k input
    · rw [if_pos h, decide_eq_true h]
      rfl
    · rw [if_neg h, decide_eq_false h]
      exact ih _

theorem joinLeft_eq (left : List Record) (leftKey : Record → Value)
    (inputs : List (JoinInput (List Record))) (schema : Schema) :
    joinLeft left leftKey inputs schema =
      (left.findSome? fun r => refusal? inputs (leftKey r)).elim
        (.ok (left.map fun r => schema.conform (fillAll inputs (leftKey r) r))) .error := by
  refine mapM_eq_findSome? (fun r => ?_) left
  rw [attachAll_eq]
  cases refusal? inputs (leftKey r) <;> rfl

theorem refusal?_eq_none {inputs : List (JoinInput (List Record))} {k : Value} :
    refusal? inputs k = none ↔ ∀ input ∈ inputs, ¬ Ambiguous k input := by
  simp [refusal?]

theorem refusal?_eq_some {inputs : List (JoinInput (List Record))} {k : Value} {error : Error} :
    refusal? inputs k = some error ↔ ∃ front input back, inputs = front ++ input :: back ∧
      (∀ i ∈ front, ¬ Ambiguous k i) ∧ Ambiguous k input ∧
      error = .manyMatches input.field (scan input k).length k := by
  simp only [refusal?, Option.map_eq_some_iff, List.find?_eq_some_iff_append]
  constructor
  · rintro ⟨input, ⟨ambiguous, front, back, he, first⟩, rfl⟩
    exact ⟨front, input, back, he, by simpa using first, of_decide_eq_true ambiguous, rfl⟩
  · rintro ⟨front, input, back, he, first, ambiguous, rfl⟩
    exact ⟨input, ⟨decide_eq_true ambiguous, front, back, he, by simpa using first⟩, rfl⟩

/-- What a join is: a nested loop, which the first ambiguous record of the left side ends. -/
structure NestedLoop (left : List Record) (leftKey : Record → Value)
    (inputs : List (JoinInput (List Record))) (schema : Schema)
    (outcome : Except Error (List Record)) : Prop where
  scans : ∀ input ∈ inputs, ∀ k, Scans input k (scan input k)
  fails : ∀ error, outcome = .error error ↔ ∃ before r after, left = before ++ r :: after ∧
    (∀ l ∈ before, ∀ input ∈ inputs, ¬ Ambiguous (leftKey l) input) ∧
    ∃ front input back, inputs = front ++ input :: back ∧
      (∀ i ∈ front, ¬ Ambiguous (leftKey r) i) ∧ Ambiguous (leftKey r) input ∧
      error = .manyMatches input.field (scan input (leftKey r)).length (leftKey r)
  joins : (∀ r ∈ left, ∀ input ∈ inputs, ¬ Ambiguous (leftKey r) input) →
    outcome = .ok (left.map fun r => schema.conform (fillAll inputs (leftKey r) r))

/-- The join through indexes is the nested loop. -/
theorem joinLeft_nestedLoop (left : List Record) (leftKey : Record → Value)
    (inputs : List (JoinInput (List Record))) (schema : Schema) :
    NestedLoop left leftKey inputs schema (joinLeft left leftKey inputs schema) where
  scans input _ k := scan_scans input k
  fails error := by
    rw [joinLeft_eq, elim_eq_error_iff, List.findSome?_eq_some_iff]
    simp only [refusal?_eq_none, refusal?_eq_some]
    constructor
    · rintro ⟨before, r, after, he, refused, first⟩
      exact ⟨before, r, after, he, first, refused⟩
    · rintro ⟨before, r, after, he, first, refused⟩
      exact ⟨before, r, after, he, refused, first⟩
  joins clear := by
    have none : left.findSome? (fun r => refusal? inputs (leftKey r)) = none :=
      List.findSome?_eq_none_iff.mpr fun r hr => refusal?_eq_none.mpr (clear r hr)
    rw [joinLeft_eq, none]
    rfl

/-- Visits in two sources, of which one has no key. -/
def visits : JoinInput (List Record) :=
  ⟨"visits", .multiArray, [[⟨[("id", .int 1)]⟩], [⟨[("id", .null)]⟩, ⟨[("id", .int 1)]⟩]],
    (·.value "id"), some "visits_index"⟩

/-- Two profiles of one key, in two sources. -/
def profile : JoinInput (List Record) :=
  ⟨"profile", .single, [[⟨[("id", .int 7)]⟩], [⟨[("id", .int 7)]⟩]], (·.value "id"), none⟩

def visitor : Schema := RecordType.schema ⟨"visitor",
  [⟨"id", .int64, false⟩, ⟨"profile", .struct ⟨"profile", []⟩, true⟩,
    ⟨"visits_index", .list .int64, false⟩]⟩

/-- The first visitor is joined, null the same way; the second has two profiles. -/
theorem visitors_joined :
    joinLeft [⟨[("id", .int 1)]⟩, ⟨[("id", .null)]⟩] (·.value "id") [visits, profile] visitor =
        .ok [⟨[("id", .int 1), ("profile", .null), ("visits_index", .list [.int 0, .int 1])]⟩,
          ⟨[("id", .null), ("profile", .null), ("visits_index", .list [])]⟩] ∧
      joinLeft [⟨[("id", .int 1)]⟩, ⟨[("id", .int 7)]⟩] (·.value "id") [visits, profile] visitor =
        .error (.manyMatches "profile" 2 (.int 7)) := by
  constructor
  · exact ((joinLeft_nestedLoop _ _ _ _).joins (by decide)).trans rfl
  · exact ((joinLeft_nestedLoop _ _ _ _).fails _).mpr ⟨[⟨[("id", .int 1)]⟩], ⟨[("id", .int 7)]⟩, [],
      rfl, by decide, [visits], profile, [], rfl, by decide, by decide, rfl⟩

end RecordFlow.Memory
