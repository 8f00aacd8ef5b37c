import RecordFlow.Proofs.Pipeline.Workspace
import RecordFlow.Proofs.Pruning.Descent
import RecordFlow.Proofs.Pruning.Nested

/-! Resolving comes to an end. It is stated of walks, which enter the steps that they need wherever
the ids lead and descend into columns as far as it takes, and fail if that is farther than a limit.
Main statement: if record types that share a name are equal, then in every state of an update a walk
is what resolving makes of the state, enters steps once and from higher ids to lower ones, and
descends into a column no deeper than its type is nested. -/

namespace RecordFlow

/-- The record types of a pipeline in which names are not shared. -/
theorem Pipeline.Consistent.family {p : Pipeline} (consistent : p.Consistent) :
    RecordType.Family p.recordTypes := by
  refine ⟨fun type htype inner hinner => ?_, consistent⟩
  obtain ⟨s, hs, htype⟩ := List.mem_flatMap.mp htype
  exact List.mem_flatMap.mpr ⟨s, hs, RecordType.parts_trans htype hinner⟩

namespace Resolution

variable {p : Pipeline} {used : UsedFields} {r : Resolution} {s : Step}

/-! ### Walks -/

/-- Resolves one step by descents, its inputs being resolved. -/
def settleDescending (used : UsedFields) (r : Resolution) (step : Step) : Option Resolution :=
  let schema := (r.initial.find? step.id).getD step.schema
  match step.operation with
  | .empty | .readCsv _ | .readParquet _ => do
    let narrowed ← r.restrictions.narrowDescending schema (used.fieldsOf? step.seed)
    return r.settle step.id (← narrowed.restrictions.replayDescending narrowed.schema)
  | .joinLeft source _ _ => do
    let replayed ← r.restrictions.replayDescending schema
    let narrowed ← replayed.restrictions.narrowDescending replayed.schema
      (some (provided used r source step))
    let fields := (neededJoins used step).map (·.field)
    return { r.settle step.id narrowed with
      activeJoins := r.activeJoins.insert step.id (NameSet.empty.insertAll fields) }
  | .filter _ _ | .map _ _ | .flatMap _ _ | .aggregate _ _ _ | .limit _ _ => do
    return r.settle step.id (← r.restrictions.replayDescending schema)

/-- What a walk has come to, with the steps that it entered and the calls that it made, each from a
step to an input, the last ones first. -/
structure Walk where
  resolution : Resolution
  entered : List StepId
  calls : List (StepId × StepId)

/-- Resolves a step after what it needs, wherever the ids lead, through as many steps in one another
as the limit says; `none` if it goes farther. -/
def walk (p : Pipeline) (used : UsedFields) : Nat → Walk → StepId → ExceptT Error Option Walk
  | 0, w, id => if w.resolution.schemas.contains id then pure w else ExceptT.mk none
  | limit + 1, w, id =>
    if w.resolution.schemas.contains id then pure w
    else do
      let step ← ExceptT.mk (some (p.step id))
      let w ← (neededInputs used step).foldlM
        (fun w input => walk p used limit { w with calls := (id, input) :: w.calls } input)
        { w with entered := id :: w.entered }
      return { w with resolution := ← ExceptT.lift (settleDescending used w.resolution step) }

/-- Brings all columns in line by descents. -/
def replayNestedDescending (r : Resolution) : Option Resolution := do
  let entries ← r.schemas.entries.mapM fun e => do
    return (e.1, (← r.restrictions.descendAll e.2).1)
  return { r with schemas := ⟨entries⟩ }

/-- Resolves a step and all that it needs by a walk. -/
def updateDescending (limit : Nat) (r : Resolution) (p : Pipeline) (used : UsedFields)
    (id : StepId) : ExceptT Error Option Walk := do
  let w ← walk p used limit ⟨r, [], []⟩ id
  return { w with resolution := ← ExceptT.lift w.resolution.replayNestedDescending }

/-! ### The states of an update -/

/-- The states that an update can be in: it starts from what was left of the schemas before, and goes
on by what it is made of, in any order. -/
inductive Reachable (p : Pipeline) : Resolution → Prop
  | start {initial : StepMap Schema}
      (left : ∀ s ∈ p.steps, ∀ t, initial.find? s.id = some t → s.schema.Prunes t) :
      Reachable p (startingFrom initial)
  | narrow {r : Resolution} {type : RecordType} {s : Schema} (before : Reachable p r)
      (htype : type ∈ p.recordTypes) (left : type.schema.Prunes s) (used : Option (List String)) :
      Reachable p { r with restrictions := (r.restrictions.narrow s used).restrictions }
  | replay {r : Resolution} {type : RecordType} {s : Schema} (before : Reachable p r)
      (htype : type ∈ p.recordTypes) (left : type.schema.Prunes s) :
      Reachable p { r with restrictions := (r.restrictions.replay s).restrictions }
  | settle {r : Resolution} {s : Step} (before : Reachable p r) (hs : s ∈ p.steps)
      (used : UsedFields) : Reachable p (settleStep used r s)
  | replayNested {r : Resolution} (before : Reachable p r) : Reachable p r.replayNested

theorem Reachable.fresh : Reachable p fresh := .start fun _ _ _ found => by cases found

/-- All that is remembered is what is left of the record types of the pipeline, and all that is
resolved what is left of those of its steps. -/
structure Left (p : Pipeline) (r : Resolution) : Prop where
  restrictions : r.restrictions.Prunes p.recordTypes
  initial : ∀ s ∈ p.steps, ∀ t, r.initial.find? s.id = some t → s.schema.Prunes t
  schemas : ∀ e ∈ r.schemas.entries, ∃ s ∈ p.steps, s.id = e.1 ∧ s.seed.schema.Prunes e.2

theorem Left.settled (left : Left p r) (hs : s ∈ p.steps) {u : Restrictions.Update}
    {descending : Option Restrictions.Update}
    (keeps : Restrictions.Keeps p.recordTypes s.seed u descending) : Left p (r.settle s.id u) := by
  refine ⟨keeps.restrictions, left.initial, fun e he => ?_⟩
  rcases StepMap.mem_insertIn he with rfl | he
  · exact ⟨s, hs, rfl, keeps.schema⟩
  · exact left.schemas e he

/-- A step is settled by descents that end, from what is left to what is left. -/
theorem Left.settle (left : Left p r) (arena : Arena p.steps) (consistent : p.Consistent)
    (hs : s ∈ p.steps) (used : UsedFields) : Left p (settleStep used r s) ∧
      settleDescending used r s = some (settleStep used r s) := by
  have family := consistent.family
  have hseed := Pipeline.seed_mem hs
  have start : s.seed.schema.Prunes ((r.initial.find? s.id).getD s.schema) := by
    cases found : r.initial.find? s.id with
    | none =>
      rw [Option.getD_none, arena.derived hs]
      exact RecordType.prunes_schema _
    | some t => exact arena.derived hs ▸ left.initial s hs t found
  cases hop : s.operation with
  | empty | readCsv | readParquet =>
    have narrowed := left.restrictions.narrow family hseed start (used.fieldsOf? s.seed)
    have replayed := narrowed.restrictions.replay family hseed narrowed.schema
    simp only [settleStep, settleDescending, hop, settleRead, narrowed.ends, replayed.ends,
      Option.bind_eq_bind, Option.bind_some, Option.pure_def, and_true]
    exact left.settled hs replayed
  | joinLeft source =>
    have replayed := left.restrictions.replay family hseed start
    have narrowed := replayed.restrictions.narrow family hseed replayed.schema
      (some (provided used r source s))
    have settled := left.settled hs narrowed
    simp only [settleStep, settleDescending, hop, settleJoin, replayed.ends, narrowed.ends,
      Option.bind_eq_bind, Option.bind_some, Option.pure_def]
    exact ⟨⟨settled.restrictions, settled.initial, settled.schemas⟩, rfl⟩
  | filter | map | flatMap | aggregate | limit =>
    have replayed := left.restrictions.replay family hseed start
    simp only [settleStep, settleDescending, hop, replayed.ends, Option.bind_eq_bind,
      Option.bind_some, Option.pure_def, and_true]
    exact left.settled hs replayed

theorem Left.replayNested (left : Left p r) (consistent : p.Consistent) :
    Left p r.replayNested ∧ r.replayNestedDescending = some r.replayNested := by
  have family := consistent.family
  refine ⟨⟨left.restrictions, left.initial, fun e he => ?_⟩, ?_⟩
  · obtain ⟨before, hbefore, rfl⟩ := List.mem_map.mp he
    obtain ⟨s, hs, hid, kept⟩ := left.schemas before hbefore
    exact ⟨s, hs, hid, left.restrictions.updateColumns family (Pipeline.seed_mem hs) kept⟩
  · have each : ∀ e ∈ r.schemas.entries,
        (do return (e.1, (← r.restrictions.descendAll e.2).1) : Option (StepId × Schema)) =
          some (e.1, r.restrictions.updateColumns e.2) := by
      intro e he
      obtain ⟨s, hs, -, kept⟩ := left.schemas e he
      rw [left.restrictions.descendAll family (Pipeline.seed_mem hs) kept]
      rfl
    rw [replayNestedDescending, Restrictions.mapM_eq_some_map each]
    rfl

theorem Reachable.left (h : Reachable p r) (arena : Arena p.steps) (consistent : p.Consistent) :
    Left p r := by
  have family := consistent.family
  induction h with
  | start left =>
    refine ⟨fun _ _ _ found => ?_, left, fun _ he => ?_⟩
    · cases found
    · cases he
  | narrow _ htype left used ih =>
    exact ⟨(ih.restrictions.narrow family htype left used).restrictions, ih.initial, ih.schemas⟩
  | replay _ htype left ih =>
    exact ⟨(ih.restrictions.replay family htype left).restrictions, ih.initial, ih.schemas⟩
  | settle _ hs used ih => exact (ih.settle arena consistent hs used).1
  | replayNested _ ih => exact (ih.replayNested consistent).1

/-- What was resolved may be started from. -/
theorem Reachable.again (h : Reachable p r) (arena : Arena p.steps) (consistent : p.Consistent) :
    Reachable p (startingFrom r.schemas) := by
  refine .start fun s hs t found => ?_
  obtain ⟨front, back, split, -⟩ := List.lookup_eq_some_iff.mp found
  obtain ⟨u, hu, hid, kept⟩ := (h.left arena consistent).schemas (s.id, t) (by simp [split])
  obtain rfl := arena.id_injective hu hs hid
  rwa [arena.derived hs]

/-! ### A walk from a state -/

/-- What a walk has come to from a state in the midst of some steps: whatever it entered it entered
once, as it was not resolved yet, and has resolved if it is through with it. -/
structure Walk.From (p : Pipeline) (r : Resolution) (midst : List StepId) (w : Walk) : Prop where
  reachable : Reachable p w.resolution
  initial : w.resolution.initial = r.initial
  known : ∀ id, r.schemas.contains id = true → w.resolution.schemas.contains id = true
  once : w.entered.Nodup
  new : ∀ id ∈ w.entered, r.schemas.contains id = false
  through : ∀ id ∈ w.entered, id ∈ midst ∨ w.resolution.schemas.contains id = true
  down : ∀ call ∈ w.calls, call.2.number < call.1.number

/-- A walk to a step within a limit is what resolving the step makes of the state. -/
structure Walk.Ends (p : Pipeline) (used : UsedFields) (r : Resolution) (midst : List StepId)
    (steps : List Step) (w : Walk) (id : StepId) (w' : Walk) : Prop where
  walked : ∀ limit ≥ steps.length, walk p used limit w id = pure w'
  visited : visit used steps w.resolution id = .ok w'.resolution
  goesOn : w'.From p r midst
  settled : w'.resolution.schemas.contains id = true

theorem walk_of_contains {w : Walk} {id : StepId} (h : w.resolution.schemas.contains id = true)
    (limit : Nat) : walk p used limit w id = pure w := by
  cases limit <;> rw [walk, if_pos h]

namespace Walk.From

variable {midst : List StepId} {w : Walk}

theorem call (h : w.From p r midst) {id input : StepId} (below : input.number < id.number) :
    From p r midst { w with calls := (id, input) :: w.calls } :=
  { h with down := List.forall_mem_cons.mpr ⟨below, h.down⟩ }

/-- A step that is not resolved and stands below all that the walk is in the midst of was not entered
before. -/
theorem enter (h : w.From p r midst) {id : StepId}
    (unknown : w.resolution.schemas.contains id = false)
    (below : ∀ i ∈ midst, id.number < i.number) :
    From p r (id :: midst) { w with entered := id :: w.entered } := by
  have known : ¬ w.resolution.schemas.contains id = true := Bool.eq_false_iff.mp unknown
  have fresh : id ∉ w.entered := fun again => by
    rcases h.through id again with again | again
    · exact Nat.lt_irrefl _ (below id again)
    · exact known again
  refine { h with
    once := List.nodup_cons.mpr ⟨fresh, h.once⟩
    new := List.forall_mem_cons.mpr ⟨Bool.eq_false_iff.mpr (known ∘ h.known id), h.new⟩
    through := List.forall_mem_cons.mpr ⟨.inl (List.mem_cons_self ..), fun i hi => ?_⟩ }
  exact (h.through i hi).imp_left (List.mem_cons_of_mem _)

theorem settle (h : w.From p r (s.id :: midst)) (hs : s ∈ p.steps) (used : UsedFields) :
    From p r midst { w with resolution := settleStep used w.resolution s } := by
  refine { h with
    reachable := .settle h.reachable hs used
    initial := (initial_settleStep ..).trans h.initial
    known := fun id hid => by rw [contains_settleStep, h.known id hid, Bool.true_or]
    through := fun id hid => ?_ }
  rw [contains_settleStep, Bool.or_eq_true, beq_iff_eq]
  rcases h.through id hid with hid | hid
  · rcases List.mem_cons.mp hid with rfl | hid
    · exact .inr (.inr rfl)
    · exact .inl hid
  · exact .inr (.inl hid)

/-- The inputs of a step one after the other. -/
theorem inputs {earlier : List Step} {id : StepId}
    (each : ∀ u ∈ earlier, ∀ w, From p r (id :: midst) w →
      ∃ w', Ends p used r (id :: midst) earlier w u.id w') :
    ∀ (ids : List StepId) (w : Walk),
      (∀ i ∈ ids, ∃ u ∈ earlier, u.id = i ∧ u.id.number < id.number) → From p r (id :: midst) w →
      ∃ w', (∀ limit ≥ earlier.length, ids.foldlM
          (fun w input => walk p used limit { w with calls := (id, input) :: w.calls } input) w =
            pure w') ∧
        ids.foldlM (visit used earlier) w.resolution = .ok w'.resolution ∧
        From p r (id :: midst) w'
  | [], w, _, h => ⟨w, fun _ _ => rfl, rfl, h⟩
  | i :: rest, w, hids, h => by
    obtain ⟨⟨u, hu, rfl, below⟩, later⟩ := List.forall_mem_cons.mp hids
    obtain ⟨w₁, first⟩ := each u hu _ (h.call below)
    obtain ⟨w₂, walked, visited, h₂⟩ := inputs each rest w₁ later first.goesOn
    have resolved : visit used earlier w.resolution u.id = .ok w₁.resolution := first.visited
    refine ⟨w₂, fun limit enough => ?_, ?_, h₂⟩
    · rw [List.foldlM_cons, first.walked limit enough, pure_bind, walked limit enough]
    · rw [List.foldlM_cons, resolved]
      exact visited

/-- A walk to a step below all that it is in the midst of ends. -/
theorem ends (used : UsedFields) (arena : Arena p.steps) (consistent : p.Consistent) :
    ∀ (steps : List Step) (s : Step) (midst : List StepId) (w : Walk), steps <:+ p.steps →
      s ∈ steps → (∀ i ∈ midst, s.id.number < i.number) → From p r midst w →
      ∃ w', Ends p used r midst steps w s.id w'
  | [], _, _, _, _, hs, _, _ => by cases hs
  | step :: earlier, s, midst, w, hsuffix, hs, below, h => by
    have hearlier : earlier <:+ p.steps := (List.suffix_cons _ _).trans hsuffix
    by_cases known : w.resolution.schemas.contains s.id = true
    · exact ⟨w, fun _ _ => walk_of_contains known _, visit_of_contains known, h, known⟩
    rcases (arena.suffix hsuffix).eq_or_mem hs with rfl | ⟨hid, hs'⟩
    · have hstep := hsuffix.subset hs
      have fits := (arena.suffix hsuffix).1
      have unknown := Bool.eq_false_iff.mpr known
      have needed : ∀ i ∈ neededInputs used step,
          ∃ u ∈ earlier, u.id = i ∧ u.id.number < step.id.number := fun i hi => by
        obtain ⟨u, hu, hid⟩ := fits.inputs i (mem_neededInputs_inputs hi)
        exact ⟨u, hu, hid, fits.above u hu⟩
      have each (u : Step) (hu : u ∈ earlier) (w : Walk) (h : From p r (step.id :: midst) w) :
          ∃ w', Ends p used r (step.id :: midst) earlier w u.id w' := by
        refine ends used arena consistent earlier u _ w hearlier hu ?_ h
        refine List.forall_mem_cons.mpr ⟨fits.above u hu, fun i hi => ?_⟩
        exact Nat.lt_trans (fits.above u hu) (below i hi)
      -- Entered before its inputs, the step is one that the walk is in the midst of while they go.
      obtain ⟨w', walked, visited, h'⟩ := inputs each _ _ needed (h.enter unknown below)
      have settled := (h'.reachable.left arena consistent).settle arena consistent hstep used
      have found : ExceptT.mk (some (p.step step.id)) = (pure step : ExceptT Error Option Step) := by
        rw [arena.step_eq hstep]
        rfl
      refine ⟨_, fun limit enough => ?_, visit_self unknown visited
        (h'.initial.trans h.initial.symm), h'.settle hstep used, by simp [contains_settleStep]⟩
      obtain ⟨more, rfl⟩ := Nat.exists_eq_add_of_lt enough
      rw [walk, if_neg known, found, pure_bind, walked _ (Nat.le_add_right ..), pure_bind,
        settled.2]
      rfl
    · obtain ⟨w', ended⟩ := ends used arena consistent earlier s midst w hearlier hs' below h
      exact ⟨w', fun limit enough => ended.walked limit (Nat.le_of_succ_le enough),
        (visit_of_ne hid).trans ended.visited, ended.goesOn, ended.settled⟩

end Walk.From

/-! ### Updates -/

/-- Resolving what is no step of a pipeline fails at once, in a walk too. -/
theorem visit_of_missing {id : StepId} {steps : List Step} (missing : ∀ s ∈ steps, s.id ≠ id)
    (unknown : r.schemas.contains id = false) :
    visit used steps r id = .error (.unknownStep id) := by
  induction steps with
  | nil => rw [visit, unknown, if_neg Bool.false_ne_true]
  | cons step earlier ih =>
    obtain ⟨hid, later⟩ := List.forall_mem_cons.mp missing
    rw [visit_of_ne hid, ih later]

theorem walk_of_missing (arena : Arena p.steps) {id : StepId} {w : Walk} (limit : Nat)
    (missing : ∀ s ∈ p.steps, s.id ≠ id) (unknown : w.resolution.schemas.contains id = false) :
    walk p used (limit + 1) w id = throw (.unknownStep id) := by
  rw [walk, unknown, if_neg Bool.false_ne_true, arena.step_eq_error.mpr ⟨rfl, missing⟩]
  rfl

theorem contains_replayNested (r : Resolution) (id : StepId) :
    r.replayNested.schemas.contains id = r.schemas.contains id := by
  rw [StepMap.contains, find?_replayNested, Option.isSome_map, StepMap.contains]

/-- An update whose walk ends replays in what it has come to. -/
theorem Walk.Ends.update {id : StepId} {w : Walk} (arena : Arena p.steps)
    (consistent : p.Consistent) (h : Ends p used r [] p.steps ⟨r, [], []⟩ id w) :
    r.update p used id = .ok w.resolution.replayNested ∧
      ∀ limit ≥ p.steps.length, updateDescending limit r p used id =
        pure { w with resolution := w.resolution.replayNested } := by
  have replayed := ((h.goesOn.reachable.left arena consistent).replayNested consistent).2
  have visited : visit used p.steps r id = .ok w.resolution := h.visited
  refine ⟨?_, fun limit enough => ?_⟩
  · rw [Resolution.update, visited]
    rfl
  · rw [updateDescending, h.walked limit enough, pure_bind, replayed]
    rfl

/-- From a state a walk ends, or its target is no step and was not resolved before. -/
theorem Reachable.ends_or_missing (h : Reachable p r) (arena : Arena p.steps)
    (consistent : p.Consistent) (used : UsedFields) (id : StepId) :
    (∃ w, Walk.Ends p used r [] p.steps ⟨r, [], []⟩ id w) ∨
      (∀ s ∈ p.steps, s.id ≠ id) ∧ r.schemas.contains id = false := by
  have start : Walk.From p r [] ⟨r, [], []⟩ :=
    ⟨h, rfl, fun _ known => known, .nil, nofun, nofun, nofun⟩
  by_cases known : r.schemas.contains id = true
  · exact .inl ⟨_, fun _ _ => walk_of_contains known _, visit_of_contains known, start, known⟩
  by_cases found : ∃ s ∈ p.steps, s.id = id
  · obtain ⟨s, hs, rfl⟩ := found
    exact .inl (start.ends used arena consistent p.steps s [] _ List.suffix_rfl hs nofun)
  · exact .inr ⟨by simpa using found, Bool.eq_false_iff.mpr known⟩

/-- In a state of an update all recursion ends. Descents into what is left of record types go no
deeper than the type of the column is nested; updates are walks with no more steps in one another than
there are, which enter no step twice and none that was resolved before, and go to lower ids. They end
in states, and what is resolved may be started from again. -/
structure Terminates (p : Pipeline) (r : Resolution) : Prop where
  columns : ∀ type ∈ p.recordTypes, ∀ s, type.schema.Prunes s → ∀ c ∈ s.columns,
    ∀ limit ≥ c.type.depth, r.restrictions.descend limit c =
      some ⟨r.restrictions.updateColumn c, r.restrictions.touches c⟩
  update : ∀ used id, ∃ entered calls,
    (∀ limit > p.steps.length, updateDescending limit r p used id =
      ExceptT.mk (some ((r.update p used id).map fun r' => ⟨r', entered, calls⟩))) ∧
    entered.Nodup ∧ (∀ i ∈ entered, r.schemas.contains i = false) ∧
    ∀ call ∈ calls, call.2.number < call.1.number
  target : ∀ used, ∀ s ∈ p.steps, ∃ r', r.update p used s.id = .ok r' ∧
    r'.schemas.contains s.id = true ∧ Reachable p r'
  again : Reachable p (startingFrom r.schemas)

/-- All recursion ends in every state of an update, if record types that share a name are equal. -/
theorem Reachable.terminates (built : p.Built) (consistent : p.Consistent) (h : Reachable p r) :
    Terminates p r := by
  have arena := built.arena
  have left := h.left arena consistent
  refine ⟨fun type htype s pruned c hc => ?_, fun used id => ?_, fun used s hs => ?_,
    h.again arena consistent⟩
  · obtain ⟨field, hfield, shows⟩ := RecordType.exists_field_of_prunes pruned c hc
    rw [shows.type_eq]
    exact (left.restrictions.descendsTo consistent.family htype hfield shows).ends
  · rcases h.ends_or_missing arena consistent used id with ⟨w, ended⟩ | ⟨missing, unknown⟩
    · obtain ⟨updated, walked⟩ := ended.update arena consistent
      refine ⟨w.entered, w.calls, fun limit enough => ?_, ended.goesOn.once, ended.goesOn.new,
        ended.goesOn.down⟩
      rw [walked limit (Nat.le_of_lt enough), updated]
      rfl
    · refine ⟨[], [], fun limit enough => ?_, .nil, nofun, nofun⟩
      obtain ⟨more, rfl⟩ := Nat.exists_eq_add_of_lt enough
      rw [updateDescending, walk_of_missing arena _ missing unknown, Resolution.update,
        visit_of_missing missing unknown]
      rfl
  · rcases h.ends_or_missing arena consistent used s.id with ⟨w, ended⟩ | ⟨missing, -⟩
    · refine ⟨_, (ended.update arena consistent).1, ?_, ended.goesOn.reachable.replayNested⟩
      rw [contains_replayNested]
      exact ended.settled
    · exact absurd rfl (missing s hs)

/-- Once addresses are narrowed to their cities, the descent into the home of a resident takes over
the cities, and ends there. -/
theorem homes_terminates : homes.Built ∧ homes.Consistent ∧ ∃ r, Reachable homes r ∧
    Terminates homes r ∧
      r.restrictions.descend 1 ⟨"home", .struct address, false, some address.schema⟩ =
        some ⟨⟨"home", .struct address, false, some ⟨"address", [⟨"city", .string, false, none⟩]⟩⟩,
          true⟩ := by
  have read : readAddresses ∈ homes.steps := by simp [homes]
  have settled : settleIn ∈ homes.steps := by simp [homes]
  have narrowed := Reachable.settle Reachable.fresh read
    ⟨⟨["envelope", "resident"]⟩, ⟨[("address", ⟨["city"]⟩)]⟩⟩
  have law := Reachable.terminates homes_built homes_consistent narrowed
  have home : ⟨"home", .struct address, false, some address.schema⟩ ∈ resident.schema.columns :=
    .tail _ (.head _)
  exact ⟨homes_built, homes_consistent, _, narrowed, law,
    law.columns resident (Pipeline.seed_mem settled) _ (RecordType.prunes_schema _) _ home 1
      (Nat.le_refl _)⟩

end Resolution

end RecordFlow
