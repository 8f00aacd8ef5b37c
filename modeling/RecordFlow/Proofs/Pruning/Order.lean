import RecordFlow.Proofs.Pipeline.Postorder
import RecordFlow.Pruning.Resolution

/-! The order in which steps are resolved, and resolving as one pass along it. Each step stands
once, after its source and the sources of its needed joins. -/

namespace RecordFlow.Resolution

variable {p : Pipeline} {used : UsedFields}

/-- The joins of a step whose fields are used. -/
def neededJoins (used : UsedFields) (step : Step) : List Join :=
  step.joins.filter (isNeeded (used.fieldsOf? step.seed))

/-- What is resolved before a step: its source, then the sources of its needed joins. -/
def neededInputs (used : UsedFields) (step : Step) : List StepId :=
  step.source?.toList ++ (neededJoins used step).flatMap (·.sources)

/-- Extends `done` by what a step needs and by the step itself. -/
def order (used : UsedFields) : List Step → List Step → StepId → List Step
  | [], done, _ => done
  | step :: earlier, done, id =>
    if done.any (·.id == id) then done
    else if step.id = id then (neededInputs used step).foldl (order used earlier) done ++ [step]
    else order used earlier done id

/-- Resolves one step, its inputs being resolved. -/
def settleStep (used : UsedFields) (r : Resolution) (step : Step) : Resolution :=
  let schema := (r.initial.find? step.id).getD step.schema
  match step.operation with
  | .empty | .readCsv _ | .readParquet _ => r.settleRead used step schema
  | .joinLeft source _ _ => r.settleJoin step schema source (neededJoins used step)
  | .filter _ _ | .map _ _ | .flatMap _ _ | .aggregate _ _ _ | .limit _ _ =>
    r.settle step.id (r.restrictions.replay schema)

/-- Resolves steps one after the other. -/
def settleAll (used : UsedFields) (r : Resolution) (steps : List Step) : Resolution :=
  steps.foldl (settleStep used) r

theorem settleAll_append (r : Resolution) (steps steps' : List Step) :
    settleAll used r (steps ++ steps') = settleAll used (settleAll used r steps) steps' :=
  List.foldl_append

theorem settleAll_concat (r : Resolution) (steps : List Step) (s : Step) :
    settleAll used r (steps ++ [s]) = settleStep used (settleAll used r steps) s :=
  settleAll_append r steps [s]

/-! ### The needed inputs -/

theorem mem_neededInputs_inputs {s : Step} {id : StepId} (h : id ∈ neededInputs used s) :
    id ∈ s.inputs := by
  rcases List.mem_append.mp h with h | h
  · exact List.mem_append_left _ h
  · obtain ⟨j, hj, hid⟩ := List.mem_flatMap.mp h
    exact List.mem_append_right _ (List.mem_flatMap.mpr ⟨j, (List.mem_filter.mp hj).1, hid⟩)

/-! ### One pass along the order -/

theorem find?_settle (r : Resolution) (id i : StepId) (u : Restrictions.Update) :
    (r.settle id u).schemas.find? i = if i = id then some u.schema else r.schemas.find? i :=
  StepMap.find?_insert ..

/-- Resolving a step settles its schema and no other. -/
theorem find?_settleStep_of_ne (r : Resolution) {s : Step} {id : StepId} (h : id ≠ s.id) :
    (settleStep used r s).schemas.find? id = r.schemas.find? id := by
  unfold settleStep
  split <;> simp only [settleRead, settleJoin, find?_settle, if_neg h]

theorem find?_settleStep_isSome (r : Resolution) (s : Step) :
    ((settleStep used r s).schemas.find? s.id).isSome := by
  unfold settleStep
  split <;> simp [settleRead, settleJoin, find?_settle]

theorem contains_settleStep (r : Resolution) (s : Step) (id : StepId) :
    (settleStep used r s).schemas.contains id = (r.schemas.contains id || (s.id == id)) := by
  by_cases h : id = s.id
  · subst h
    simp [StepMap.contains, find?_settleStep_isSome]
  · have : (s.id == id) = false := beq_eq_false_iff_ne.mpr (Ne.symm h)
    simp only [StepMap.contains, find?_settleStep_of_ne r h, this, Bool.or_false]

theorem contains_settleAll (r : Resolution) (steps : List Step) (id : StepId) :
    (settleAll used r steps).schemas.contains id =
      (r.schemas.contains id || steps.any (·.id == id)) := by
  induction steps generalizing r with
  | nil => simp [settleAll]
  | cons s rest ih =>
    have step : settleAll used r (s :: rest) = settleAll used (settleStep used r s) rest := rfl
    rw [step, ih, List.any_cons, ← Bool.or_assoc, contains_settleStep]

theorem initial_settleStep (r : Resolution) (s : Step) :
    (settleStep used r s).initial = r.initial := by
  unfold settleStep
  split <;> rfl

theorem initial_settleAll (r : Resolution) (steps : List Step) :
    (settleAll used r steps).initial = r.initial := by
  induction steps generalizing r with
  | nil => rfl
  | cons s rest ih => exact (ih (settleStep used r s)).trans (initial_settleStep r s)

theorem visit_of_contains {steps : List Step} {r : Resolution} {id : StepId}
    (h : r.schemas.contains id = true) : visit used steps r id = .ok r := by
  cases steps <;> rw [visit, if_pos h]

theorem visit_of_ne {later : List Step} {r : Resolution} {u : Step} {id : StepId} (h : u.id ≠ id) :
    visit used (u :: later) r id = visit used later r id := by
  by_cases known : r.schemas.contains id = true
  · rw [visit_of_contains known, visit_of_contains known]
  · rw [visit, if_neg known, if_neg h]

/-- A step is settled once its needed inputs are resolved one after the other. -/
theorem visit_self {r r' : Resolution} {step : Step} {earlier : List Step}
    (new : r.schemas.contains step.id = false)
    (inputs : (neededInputs used step).foldlM (visit used earlier) r = .ok r')
    (initial : r'.initial = r.initial) :
    visit used (step :: earlier) r step.id = .ok (settleStep used r' step) := by
  rw [visit, new, if_neg Bool.false_ne_true, if_pos rfl]
  cases hop : step.operation with
  | empty | readCsv | readParquet =>
    have none : neededInputs used step = [] := by
      simp [neededInputs, neededJoins, Step.source?, Step.joins, hop, Operation.source?,
        Operation.joins]
    rw [none] at inputs
    cases inputs
    simp only [settleStep, hop]
  | filter source | map source | flatMap source | aggregate source | limit source =>
    have only : neededInputs used step = [source] := by
      simp [neededInputs, neededJoins, Step.source?, Step.joins, hop, Operation.source?,
        Operation.joins]
    simp only [only, List.foldlM_cons, List.foldlM_nil, bind_pure] at inputs
    simp only [inputs, bind, Except.bind, pure, Except.pure, settleStep, hop, initial]
  | joinLeft source key joins =>
    have needed : neededJoins used step = joins.filter (isNeeded (used.fieldsOf? step.seed)) := by
      simp only [neededJoins, Step.joins, hop, Operation.joins]
    have all : neededInputs used step = source :: (neededJoins used step).flatMap (·.sources) := by
      simp [neededInputs, Step.source?, hop, Operation.source?]
    rw [all, List.foldlM_cons] at inputs
    obtain ⟨r₁, left, right⟩ : ∃ r₁, visit used earlier r source = .ok r₁ ∧
        ((neededJoins used step).flatMap (·.sources)).foldlM (visit used earlier) r₁ = .ok r' := by
      cases left : visit used earlier r source with
      | error e => simp [left, bind, Except.bind] at inputs
      | ok r₁ => exact ⟨r₁, rfl, by simpa [left, bind, Except.bind] using inputs⟩
    simp only [← needed, left, right, bind, Except.bind, pure, Except.pure, settleStep, hop, initial]

/-- A traversal of the steps from the start of a run resolves them in order. -/
theorem visit_eq (arena : Arena p.steps) (initial : StepMap Schema) :
    ∀ (steps done : List Step) (s : Step), steps <:+ p.steps → s ∈ steps →
      visit used steps (settleAll used (startingFrom initial) done) s.id =
        .ok (settleAll used (startingFrom initial) (order used steps done s.id))
  | [], _, _, _, hs => by cases hs
  | step :: earlier, done, s, hsuffix, hs => by
    have hearlier : earlier <:+ p.steps := (List.suffix_cons _ _).trans hsuffix
    have settled : (settleAll used (startingFrom initial) done).schemas.contains s.id =
        done.any (·.id == s.id) := by
      rw [contains_settleAll]
      rfl
    rw [order]
    by_cases hdone : done.any (·.id == s.id) = true
    · rw [if_pos hdone]
      exact visit_of_contains (settled.trans hdone)
    rw [if_neg hdone]
    rcases (arena.suffix hsuffix).eq_or_mem hs with rfl | ⟨hid, hs'⟩
    · -- The inputs one after the other, whatever was resolved before them.
      have inputs (ids : List StepId) (hids : ∀ id ∈ ids, id ∈ neededInputs used step)
          (done : List Step) :
          ids.foldlM (visit used earlier) (settleAll used (startingFrom initial) done) =
            .ok (settleAll used (startingFrom initial) (ids.foldl (order used earlier) done)) := by
        induction ids generalizing done with
        | nil => rfl
        | cons id rest ih =>
          obtain ⟨u, hu, rfl⟩ := (arena.suffix hsuffix).1.inputs id
            (mem_neededInputs_inputs (hids id (List.mem_cons_self ..)))
          rw [List.foldlM_cons, visit_eq arena initial earlier done u hearlier hu]
          exact ih (fun i hi => hids i (List.mem_cons_of_mem _ hi)) _
      rw [if_pos rfl, settleAll_concat]
      exact visit_self (settled.trans (Bool.eq_false_iff.mpr hdone))
        (inputs _ (fun _ hid => hid) done) (by rw [initial_settleAll, initial_settleAll])
    · rw [if_neg hid, visit_of_ne hid]
      exact visit_eq arena initial earlier done s hearlier hs'

/-! ### The order -/

/-- Steps of a pipeline, each once and after the inputs that it needs. -/
structure Ordered (p : Pipeline) (used : UsedFields) (steps : List Step) : Prop where
  mem : ∀ s ∈ steps, s ∈ p.steps
  before : ∀ pre s post, steps = pre ++ s :: post →
    s ∉ pre ∧ ∀ id ∈ neededInputs used s, ∃ t ∈ pre, t.id = id

theorem ordered_iff {steps : List Step} :
    Ordered p used steps ↔ p.InOrder (neededInputs used) steps :=
  ⟨fun h => ⟨h.mem, h.before⟩, fun h => ⟨h.mem, h.before⟩⟩

theorem Ordered.front {pre post : List Step} (h : Ordered p used (pre ++ post)) :
    Ordered p used pre := by
  refine ⟨fun s hs => h.mem s (List.mem_append_left _ hs), fun a s b he => ?_⟩
  exact h.before a s (b ++ post) (by simp [he])

theorem Ordered.upto {pre post : List Step} {s : Step} (h : Ordered p used (pre ++ s :: post)) :
    Ordered p used (pre ++ [s]) := by
  have split : pre ++ s :: post = (pre ++ [s]) ++ post := by simp
  rw [split] at h
  exact h.front

/-- The steps after a step of the order are others. -/
theorem Ordered.ids_ne (arena : Arena p.steps) {steps pre post : List Step} {s : Step}
    (h : Ordered p used steps) (he : steps = pre ++ s :: post) : ∀ u ∈ post, u.id ≠ s.id := by
  intro u hu hid
  have hs := h.mem s (by simp [he])
  obtain rfl := arena.id_injective (h.mem u (by simp [he, hu])) hs hid
  obtain ⟨front, back, rfl⟩ := List.append_of_mem hu
  exact (h.before (pre ++ u :: front) u back (by simp [he])).1 (by simp)

theorem order_eq (steps done : List Step) (id : StepId) :
    order used steps done id = Pipeline.postorder (neededInputs used) steps done id := by
  induction steps generalizing done id with
  | nil => rfl
  | cons step earlier ih =>
    have same : order used earlier = Pipeline.postorder (neededInputs used) earlier :=
      funext fun done => funext fun id => ih done id
    rw [order, Pipeline.postorder, same]

/-- The order extends what is done by steps reached from the new one, the new one among them. -/
structure Reached (p : Pipeline) (used : UsedFields) (roots : List StepId)
    (done steps : List Step) : Prop where
  ordered : Ordered p used steps
  keeps : ∀ u ∈ done, u ∈ steps
  entered : ∀ id ∈ roots, ∃ u ∈ steps, u.id = id
  reached : ∀ u ∈ steps, u ∈ done ∨ ∃ r ∈ p.steps, r.id ∈ roots ∧ p.Reaches r u

theorem order_spec (arena : Arena p.steps) {steps done : List Step} {s : Step}
    (hsuffix : steps <:+ p.steps) (hs : s ∈ steps) (h : Ordered p used done) :
    Reached p used [s.id] done (order used steps done s.id) := by
  have within (s : Step) (id : StepId) : id ∈ neededInputs used s → id ∈ s.inputs :=
    mem_neededInputs_inputs
  have spec := Pipeline.postorder_spec within arena steps done s hsuffix hs (ordered_iff.mp h)
  rw [order_eq]
  refine ⟨ordered_iff.mpr spec.ordered, spec.keeps, spec.entered, fun u hu => ?_⟩
  refine (spec.reached u hu).imp_right fun ⟨r, hr, hid, path⟩ => ⟨r, hr, hid, ?_⟩
  exact Relation.ReflTransGen.mono (fun _ _ => Pipeline.Follows.hasInput within) _ _ path

/-- Later steps make no difference to the order from an earlier one. -/
theorem order_suffix (arena : Arena p.steps) {steps done : List Step} {s : Step}
    (hsuffix : steps <:+ p.steps) (hs : s ∈ steps) :
    order used p.steps done s.id = order used steps done s.id := by
  rw [order_eq, order_eq]
  exact arena.eq_of_suffix hsuffix hs (Pipeline.postorder (neededInputs used) · done s.id)
    fun _ _ => Pipeline.postorder_of_ne

theorem order_self (arena : Arena p.steps) {s : Step} {earlier : List Step}
    (hsuffix : s :: earlier <:+ p.steps) :
    order used p.steps [] s.id = (neededInputs used s).foldl (order used earlier) [] ++ [s] := by
  rw [order_suffix arena hsuffix (List.mem_cons_self ..)]
  simp [order]

/-- What passes records on is resolved right after the steps whose records it passes. -/
theorem order_of_passes (used : UsedFields) (arena : Arena p.steps) {s t : Step} (hs : s ∈ p.steps)
    (h : Relation.ReflTransGen p.Passes s t) :
    ∃ pre post, order used p.steps [] s.id = pre ++ t :: post ∧
      ∀ u ∈ post, u.operation.passed?.isSome := by
  induction h using Relation.ReflTransGen.head_induction_on with
  | refl =>
    obtain ⟨earlier, hsuffix, -⟩ := arena.fits hs
    exact ⟨_, [], order_self arena hsuffix, by simp⟩
  | @head s u first _ ih =>
    obtain ⟨hu, hpassed⟩ := first
    obtain ⟨pre, post, he, hpost⟩ := ih hu
    obtain ⟨earlier, hsuffix, fits⟩ := arena.fits hs
    have below : u ∈ earlier := by
      obtain ⟨v, hv, hid, -⟩ := fits.passed u.id hpassed
      exact arena.id_injective (hsuffix.subset (List.mem_cons_of_mem _ hv)) hu hid ▸ hv
    have only : neededInputs used s = [u.id] := by
      unfold Operation.passed? at hpassed
      split at hpassed <;> simp_all [neededInputs, neededJoins, Step.source?, Step.joins,
        Operation.source?, Operation.joins]
    have hearlier : earlier <:+ p.steps := (List.suffix_cons _ _).trans hsuffix
    refine ⟨pre, post ++ [s], ?_, fun v hv => ?_⟩
    · rw [order_self arena hsuffix, only, List.foldl_cons, List.foldl_nil,
        ← order_suffix arena hearlier below, he, List.append_assoc, List.cons_append]
    · rcases List.mem_append.mp hv with hv | hv
      · exact hpost v hv
      · rw [List.mem_singleton.mp hv, hpassed]
        rfl

end RecordFlow.Resolution
