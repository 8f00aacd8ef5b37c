import RecordFlow.Proofs.Pipeline.Search

/-! Pipelines as the constructors make them. Ids come from a counter that only grows, so each step
stands above all earlier ones, and whatever it refers to is an earlier step of the same pipeline. -/

namespace RecordFlow

namespace Pipeline

/-- Every step was accepted as the answer to a request, under an id above the ids in use. -/
inductive Built : Pipeline → Prop
  | empty : Built .empty
  | push {p : Pipeline} {id : StepId} {request : Request} {step : Step} :
      Built p → (∀ s ∈ p.steps, s.id.number < id.number) → p.resolve id request = .ok step →
      Built (p.push step)

end Pipeline

/-- The source of an operation that gives records on unchanged. -/
def Operation.passed? : Operation → Option StepId
  | .filter source _ | .limit source _ => some source
  | _ => none

/-- What a step is to the steps before it. -/
structure Step.Fits (earlier : List Step) (step : Step) : Prop where
  above : ∀ s ∈ earlier, s.id.number < step.id.number
  checked : step.seed.check = .ok ()
  derived : step.schema = step.seed.schema
  inputs : ∀ id ∈ step.inputs, ∃ s ∈ earlier, s.id = id
  single : ∀ j ∈ step.joins, j.kind ≠ .multiArray → ∃ id, j.sources = [id]
  passed : ∀ id, step.operation.passed? = some id → ∃ s ∈ earlier, s.id = id ∧ s.seed = step.seed

/-- Steps, newest first, each of which fits the steps below it. -/
def Arena : List Step → Prop
  | [] => True
  | step :: earlier => step.Fits earlier ∧ Arena earlier

/-! ### Looking up steps -/

theorem mem_of_findStep {id : StepId} {steps : List Step} {s : Step}
    (h : findStep id steps = some s) : s ∈ steps ∧ s.id = id := by
  refine ⟨List.mem_of_find?_eq_some h, ?_⟩
  simpa using List.find?_some h

theorem Arena.id_injective {steps : List Step} (h : Arena steps) {s t : Step} (hs : s ∈ steps)
    (ht : t ∈ steps) (he : s.id = t.id) : s = t := by
  induction steps with
  | nil => cases hs
  | cons step earlier ih =>
    obtain ⟨fits, rest⟩ := h
    rcases List.mem_cons.mp hs with rfl | hs' <;> rcases List.mem_cons.mp ht with rfl | ht'
    · rfl
    · have := fits.above t ht'
      rw [he] at this
      omega
    · have := fits.above s hs'
      rw [he] at this
      omega
    · exact ih rest hs' ht'

/-- Below the newest step its id does not occur. -/
theorem Arena.eq_or_mem {earlier : List Step} {step s : Step} (h : Arena (step :: earlier))
    (hs : s ∈ step :: earlier) : step = s ∨ (step.id ≠ s.id ∧ s ∈ earlier) := by
  rcases List.mem_cons.mp hs with rfl | hs
  · exact .inl rfl
  · have := h.1.above s hs
    exact .inr ⟨fun same => Nat.lt_irrefl _ (same ▸ this), hs⟩

theorem Arena.findStep_eq {steps : List Step} (h : Arena steps) {s : Step} (hs : s ∈ steps) :
    findStep s.id steps = some s := by
  cases hf : findStep s.id steps with
  | none =>
    have := List.find?_eq_none.mp hf s hs
    simp at this
  | some t =>
    obtain ⟨ht, he⟩ := mem_of_findStep hf
    rw [h.id_injective ht hs he]

theorem Arena.falling {steps : List Step} (h : Arena steps) :
    steps.Pairwise fun s t => t.id.number < s.id.number := by
  induction steps with
  | nil => exact .nil
  | cons s earlier ih => exact .cons h.1.above (ih h.2)

/-- In the order of construction ids rise. -/
theorem Arena.rising {steps : List Step} (h : Arena steps) :
    steps.reverse.Pairwise fun s t => s.id.number < t.id.number :=
  List.pairwise_reverse.mpr h.falling

/-- The step of an id is found just if there is one. -/
theorem Arena.find?_eq_some {p : Pipeline} (h : Arena p.steps) {id : StepId} {s : Step} :
    p.find? id = some s ↔ s ∈ p.steps ∧ s.id = id := by
  refine ⟨Pipeline.mem_of_find?, fun ⟨hs, hid⟩ => ?_⟩
  cases hf : p.find? id with
  | none =>
    rw [Pipeline.find?_eq h.rising] at hf
    exact absurd (beq_iff_eq.mpr hid) (List.find?_eq_none.mp hf s (List.mem_reverse.mpr hs))
  | some t =>
    obtain ⟨ht, he⟩ := Pipeline.mem_of_find? hf
    rw [h.id_injective ht hs (he.trans hid.symm)]

theorem Arena.step_eq {p : Pipeline} (h : Arena p.steps) {s : Step} (hs : s ∈ p.steps) :
    p.step s.id = .ok s := by
  rw [Pipeline.step, h.find?_eq_some.mpr ⟨hs, rfl⟩]

theorem Arena.suffix {steps rest : List Step} (h : Arena steps) (hr : rest <:+ steps) :
    Arena rest := by
  obtain ⟨front, rfl⟩ := hr
  induction front with
  | nil => exact h
  | cons _ front ih => exact ih h.2

/-- What passes over steps of other ids is the same for all steps as for those up to its own. -/
theorem Arena.eq_of_suffix {β : Type} {steps rest : List Step} (h : Arena steps)
    (hsuffix : rest <:+ steps) {s : Step} (hs : s ∈ rest) (f : List Step → β)
    (skips : ∀ u later, u.id ≠ s.id → f (u :: later) = f later) : f steps = f rest := by
  obtain ⟨front, rfl⟩ := hsuffix
  induction front with
  | nil => rfl
  | cons u front ih =>
    have above := h.1.above s (List.mem_append_right _ hs)
    have ne : u.id ≠ s.id := fun same => Nat.lt_irrefl _ (same ▸ above)
    exact (skips u _ ne).trans (ih h.2)

/-- The steps below a step hold all its inputs. -/
theorem Arena.fits {steps : List Step} (h : Arena steps) {s : Step} (hs : s ∈ steps) :
    ∃ earlier, s :: earlier <:+ steps ∧ s.Fits earlier := by
  obtain ⟨front, earlier, rfl⟩ := List.append_of_mem hs
  exact ⟨earlier, List.suffix_append _ _, (h.suffix (List.suffix_append _ _)).1⟩

theorem Arena.checked {steps : List Step} (h : Arena steps) {s : Step} (hs : s ∈ steps) :
    s.seed.check = .ok () := by
  obtain ⟨_, _, fits⟩ := h.fits hs
  exact fits.checked

theorem Arena.derived {steps : List Step} (h : Arena steps) {s : Step} (hs : s ∈ steps) :
    s.schema = s.seed.schema := by
  obtain ⟨_, _, fits⟩ := h.fits hs
  exact fits.derived

theorem Arena.input_mem {steps : List Step} (h : Arena steps) {s : Step} (hs : s ∈ steps)
    {id : StepId} (hi : id ∈ s.inputs) : ∃ t ∈ steps, t.id = id := by
  obtain ⟨earlier, hsuffix, fits⟩ := h.fits hs
  obtain ⟨t, ht, he⟩ := fits.inputs id hi
  exact ⟨t, hsuffix.subset (List.mem_cons_of_mem _ ht), he⟩

theorem Arena.input_below {steps : List Step} (h : Arena steps) {s t : Step} (hs : s ∈ steps)
    (ht : t ∈ steps) (hi : t.id ∈ s.inputs) : t.id.number < s.id.number := by
  obtain ⟨earlier, hsuffix, fits⟩ := h.fits hs
  obtain ⟨u, hu, he⟩ := fits.inputs t.id hi
  have := h.id_injective (hsuffix.subset (List.mem_cons_of_mem _ hu)) ht he
  exact this ▸ fits.above u hu

/-- Filters and limits keep the record type of their source. -/
theorem Arena.passed_seed {steps : List Step} (h : Arena steps) {s t : Step} (hs : s ∈ steps)
    (ht : t ∈ steps) (hp : s.operation.passed? = some t.id) : t.seed = s.seed := by
  obtain ⟨earlier, hsuffix, fits⟩ := h.fits hs
  obtain ⟨u, hu, he, hseed⟩ := fits.passed t.id hp
  have := h.id_injective (hsuffix.subset (List.mem_cons_of_mem _ hu)) ht he
  exact this ▸ hseed

/-! ### What requests make -/

namespace Pipeline

theorem seedSchema_ok {type : DataType} {seed : RecordType} {schema : Schema}
    (h : seedSchema type = .ok (seed, schema)) :
    seed.check = .ok () ∧ schema = seed.schema := by
  cases type with
  | struct type =>
    simp only [seedSchema, Schema.ofRecordType] at h
    cases hc : type.check with
    | error flaw => simp [hc, bind, Except.bind] at h
    | ok u =>
      simp only [hc, bind, Except.bind, pure, Except.pure, Except.ok.injEq, Prod.mk.injEq] at h
      obtain ⟨rfl, rfl⟩ := h
      exact ⟨hc, rfl⟩
  | _ => simp [seedSchema] at h

theorem step_ok {p : Pipeline} {id : StepId} {s : Step} (h : p.step id = .ok s) :
    s ∈ p.steps ∧ s.id = id := by
  unfold step at h
  split at h
  · next hf =>
    cases h
    exact mem_of_find? hf
  · cases h

end Pipeline

theorem Join.Source.single_of_stepsFor {source : Join.Source} {kind : JoinKind} {ids : List StepId}
    (h : source.stepsFor kind = .ok ids) (ne : kind ≠ .multiArray) : ∃ id, ids = [id] := by
  cases source with
  | step id =>
    cases kind with
    | single | multi => exact ⟨id, (Except.ok.inj h).symm⟩
    | multiArray => cases h
  | steps =>
    cases kind with
    | single | multi => cases h
    | multiArray => exact absurd rfl ne

/-- An accepted side has steps as its kind asks for, all of them known. -/
theorem Join.decode_ok {known : StepId → Bool} {d : Join.Description} {j : Join}
    (h : Join.decode known d = .ok j) :
    d.source.stepsFor j.kind = .ok j.sources ∧ ∀ id ∈ j.sources, known id = true := by
  unfold Join.decode at h
  split at h
  · cases h
  · split at h
    · cases h
    · cases h
    · next kind key _ _ =>
      cases hs : d.source.stepsFor kind with
      | error flaw => simp [hs, bind, Except.bind] at h
      | ok sources =>
        simp only [hs, bind, Except.bind] at h
        split at h
        · cases h
        · next hf =>
          cases h
          exact ⟨hs, fun id hid => by simpa using List.find?_eq_none.mp hf id hid⟩

namespace Pipeline

theorem decodeJoins_ok {p : Pipeline} {right : List Join.Description} {joins : List Join}
    (h : p.decodeJoins right = .ok joins) :
    ∀ j ∈ joins, ∃ d ∈ right, Join.decode p.contains d = .ok j := by
  induction right generalizing joins with
  | nil =>
    cases h
    intro j hj
    cases hj
  | cons d rest ih =>
    simp only [decodeJoins] at h
    split at h
    · next join hd =>
      cases hr : p.decodeJoins rest with
      | error e => simp [hr, bind, Except.bind] at h
      | ok tail =>
        simp only [hr, bind, Except.bind, pure, Except.pure, Except.ok.injEq] at h
        subst h
        intro j hj
        rcases List.mem_cons.mp hj with rfl | hj
        · exact ⟨d, List.mem_cons_self .., hd⟩
        · obtain ⟨e, he, decoded⟩ := ih hr j hj
          exact ⟨e, List.mem_cons_of_mem _ he, decoded⟩
    · cases h

theorem decodeJoins_sources {p : Pipeline} {right : List Join.Description} {joins : List Join}
    (h : p.decodeJoins right = .ok joins) :
    ∀ j ∈ joins, ∀ id ∈ j.sources, ∃ s ∈ p.steps, s.id = id := by
  intro j hj id hid
  obtain ⟨d, -, decoded⟩ := decodeJoins_ok h j hj
  obtain ⟨s, hs⟩ := Option.isSome_iff_exists.mp ((Join.decode_ok decoded).2 id hid)
  exact ⟨s, mem_of_find? hs⟩

theorem decodeJoins_single {p : Pipeline} {right : List Join.Description} {joins : List Join}
    (h : p.decodeJoins right = .ok joins) :
    ∀ j ∈ joins, j.kind ≠ .multiArray → ∃ id, j.sources = [id] := by
  intro j hj ne
  obtain ⟨d, -, decoded⟩ := decodeJoins_ok h j hj
  exact Join.Source.single_of_stepsFor (Join.decode_ok decoded).1 ne

/-- A step that answers a request fits the steps that are there. -/
theorem resolve_fits {p : Pipeline} {id : StepId} {request : Request} {step : Step}
    (above : ∀ s ∈ p.steps, s.id.number < id.number) (arena : Arena p.steps)
    (h : p.resolve id request = .ok step) : step.id = id ∧ step.Fits p.steps := by
  have inputOf {source : StepId} {s : Step} (hs : p.step source = .ok s) :
      ∃ t ∈ p.steps, t.id = source := ⟨s, step_ok hs⟩
  cases request with
  | empty seed | readCsv seed locator | readParquet seed locator =>
    simp only [resolve, bind, Except.bind] at h
    split at h
    · cases h
    · next seeded hseed =>
      cases h
      obtain ⟨checked, derived⟩ := seedSchema_ok hseed
      exact ⟨rfl, above, checked, derived, by simp [Step.inputs, Step.source?, Step.joins,
        Operation.source?, Operation.joins], by simp [Step.joins, Operation.joins],
        by simp [Operation.passed?]⟩
  | filter source predicate usage =>
    simp only [resolve, bind, Except.bind] at h
    split at h
    · cases h
    · next input hinput =>
      obtain ⟨hmem, hid⟩ := step_ok hinput
      have checked := arena.checked hmem
      have derived := arena.derived hmem
      cases h
      refine ⟨rfl, above, checked, derived, ?_, by simp [Step.joins, Operation.joins], ?_⟩
      · simpa [Step.inputs, Step.source?, Step.joins, Operation.source?, Operation.joins]
          using inputOf hinput
      · rintro i ⟨⟩
        exact ⟨input, hmem, hid, rfl⟩
  | limit source count =>
    simp only [resolve, bind, Except.bind] at h
    split at h
    · cases h
    · split at h
      · cases h
      · next input hinput =>
        obtain ⟨hmem, hid⟩ := step_ok hinput
        have checked := arena.checked hmem
        have derived := arena.derived hmem
        cases h
        refine ⟨rfl, above, checked, derived, ?_, by simp [Step.joins, Operation.joins], ?_⟩
        · simpa [Step.inputs, Step.source?, Step.joins, Operation.source?, Operation.joins]
            using inputOf hinput
        · rintro i ⟨⟩
          exact ⟨input, hmem, hid, rfl⟩
  | map source seed function usage | flatMap source seed function usage =>
    simp only [resolve, bind, Except.bind] at h
    split at h
    · cases h
    · next input hinput =>
      split at h
      · cases h
      · next seeded hseed =>
        cases h
        obtain ⟨checked, derived⟩ := seedSchema_ok hseed
        refine ⟨rfl, above, checked, derived, ?_, by simp [Step.joins, Operation.joins],
          by simp [Operation.passed?]⟩
        simpa [Step.inputs, Step.source?, Step.joins, Operation.source?, Operation.joins]
          using inputOf hinput
  | aggregate source seed builder usage =>
    simp only [resolve, bind, Except.bind] at h
    split at h
    · cases h
    · next input hinput =>
      split at h
      · cases h
      · next seeded hseed =>
        obtain ⟨checked, derived⟩ := seedSchema_ok hseed
        split at h
        · cases h
          refine ⟨rfl, above, checked, derived, ?_, by simp [Step.joins, Operation.joins],
            by simp [Operation.passed?]⟩
          simpa [Step.inputs, Step.source?, Step.joins, Operation.source?, Operation.joins]
            using inputOf hinput
        · cases h
  | joinLeft source seed key right usage =>
    simp only [resolve, bind, Except.bind] at h
    split at h
    · cases h
    · next input hinput =>
      split at h
      · cases h
      · next seeded hseed =>
        obtain ⟨checked, derived⟩ := seedSchema_ok hseed
        split at h
        · cases h
        · next joins hjoins =>
          cases h
          refine ⟨rfl, above, checked, derived, ?_, decodeJoins_single hjoins,
            by simp [Operation.passed?]⟩
          intro i hi
          simp only [Step.inputs, Step.source?, Step.joins, Operation.source?, Operation.joins,
            Option.toList_some, List.singleton_append, List.mem_cons, List.mem_flatMap] at hi
          rcases hi with rfl | ⟨j, hj, hi⟩
          · exact inputOf hinput
          · exact decodeJoins_sources hjoins j hj i hi

theorem Built.arena {p : Pipeline} (h : p.Built) : Arena p.steps := by
  induction h with
  | empty => trivial
  | @push p id request step _ above hr ih => exact ⟨(resolve_fits above ih hr).2, ih⟩

end Pipeline

end RecordFlow
