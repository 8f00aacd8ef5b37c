import Mathlib.Data.List.Induction
import RecordFlow.Proofs.Pruning.Unrestricted

/-! Resolving a second time, from the schemas that the first time left. These are narrowed already,
so that the second pass may remember other names than the first did at the same step; but of every
record type it keeps the same columns. Main statement: the second pass changes nothing. -/

namespace RecordFlow.Resolution

open Schema (Catalog AgreeOn)

variable {p : Pipeline} {used : UsedFields} {base base' : ColumnSet} {r r' : Resolution} {s : Step}

/-- A pass that keeps of every record type what another keeps, and shows of every step what the
other shows of it. -/
structure Follows (p : Pipeline) (r r' : Resolution) : Prop where
  keeps : AgreeOn p.schemas r'.restrictions.keeps r.restrictions.keeps
  names : ∀ id, (r'.schemas.find? id).map Schema.names = (r.schemas.find? id).map Schema.names

theorem Follows.keepsAfter (h : Follows p r r') (used : UsedFields) (s : Step) :
    AgreeOn p.schemas (keepsAfter used r' s) (keepsAfter used r s) := by
  intro t ht x hx
  have same (source : StepId) : provided used r' source s = provided used r source s := by
    rw [provided, provided, h.names]
  simp only [Resolution.keepsAfter, same, h.keeps t ht x hx]

/-- Two passes that settle the same step stay together. -/
theorem Follows.settle (h : Follows p r r') (hs : s.schema ∈ p.schemas)
    {next next' : Resolution} (settled : Settled p used base r s next)
    (settled' : Settled p used base' r' s next') : Follows p next next' := by
  have keeps : AgreeOn p.schemas next'.restrictions.keeps next.restrictions.keeps := by
    intro t ht x hx
    rw [settled'.keeps t ht x hx, h.keepsAfter used s t ht x hx, settled.keeps t ht x hx]
  refine ⟨keeps, fun id => ?_⟩
  by_cases here : id = s.id
  · subst here
    obtain ⟨inner, schema, -⟩ := settled.schema
    obtain ⟨inner', schema', -⟩ := settled'.schema
    rw [schema, schema', Option.map_some, Option.map_some, Schema.prune_names, Schema.prune_names]
    exact congrArg some (List.filter_congr (keeps s.schema hs))
  · rw [settled.others id here, settled'.others id here]
    exact h.names id

/-- The state in which a pass along the steps leaves the schemas that a first pass left. -/
abbrev again (used : UsedFields) (steps done : List Step) : Resolution :=
  settleAll used (startingFrom (after used steps).replayNested.schemas) done

/-- Step by step the second pass follows the first. It starts from schemas that show what was kept
when their step was settled, and in what is nested what was kept in the end. -/
theorem again_follows (catalog : Catalog p.schemas) (arena : Arena p.steps) {steps : List Step}
    (ordered : Ordered p used steps) (pre post : List Step) (he : steps = pre ++ post) :
    StartsAll used (after used steps).restrictions.keeps
        (startingFrom (after used steps).replayNested.schemas) pre ∧
      Follows p (after used pre) (again used steps pre) := by
  induction pre using List.reverseRecOn generalizing post with
  | nil => exact ⟨trivial, fun _ _ _ _ => rfl, fun _ => rfl⟩
  | append_singleton pre s ih =>
    have he' : steps = pre ++ s :: post := by simp [he]
    obtain ⟨starts, follows⟩ := ih (s :: post) he'
    have upto : Ordered p used (pre ++ [s]) := (he' ▸ ordered).upto
    have hs := upto.mem s (by simp)
    have first := upto.settled catalog arena
    have start : Starts used (after used steps).restrictions.keeps (again used steps pre) s := by
      refine ⟨(after used (pre ++ [s])).restrictions.keeps s.schema.name, ?_, fun x hx keeps => ?_⟩
      · rw [initial_settleAll, startingFrom, ordered.replayed catalog arena he']
        rfl
      · have mem := Pipeline.schema_mem arena hs
        rw [first.keeps s.schema mem x hx, ← follows.keepsAfter used s s.schema mem x hx]
        exact keeps
    have remembers := (settleAll_grows used catalog arena upto.front.mem
      (startingFrom_remembers _ _ _) starts).remembers
    have second := settleStep_spec used catalog arena hs remembers start
    refine ⟨startsAll_append.mpr ⟨starts, start, trivial⟩, ?_⟩
    rw [again, settleAll_concat]
    exact follows.settle (Pipeline.schema_mem arena hs) first second

/-- The joins that are performed depend on what is used alone. -/
theorem activeJoins_settleAll_congr (steps : List Step) (h : r.activeJoins = r'.activeJoins) :
    (settleAll used r steps).activeJoins = (settleAll used r' steps).activeJoins := by
  induction steps generalizing r r' with
  | nil => exact h
  | cons s rest ih =>
    refine ih ?_
    unfold settleStep
    split <;> simp [settleRead, settleJoin, settle, h]

theorem sorted_settleAll (steps : List Step) (h : r.schemas.Sorted) :
    (settleAll used r steps).schemas.Sorted := by
  induction steps generalizing r with
  | nil => exact h
  | cons s rest ih =>
    refine ih ?_
    unfold settleStep
    split <;> exact h.insert _ _

/-- A second pass along the same steps leaves the schemas of the first. -/
theorem schemas_again (catalog : Catalog p.schemas) (arena : Arena p.steps) {steps : List Step}
    (ordered : Ordered p used steps) :
    (again used steps steps).replayNested.schemas = (after used steps).replayNested.schemas := by
  obtain ⟨starts, follows⟩ :=
    again_follows catalog arena ordered steps [] (List.append_nil _).symm
  have sorted (initial : StepMap Schema) :
      (settleAll used (startingFrom initial) steps).replayNested.schemas.Sorted :=
    (sorted_settleAll steps StepMap.sorted_empty).map _
  refine (sorted _).ext (sorted _) fun id => ?_
  by_cases hid : steps.any (·.id == id) = true
  · obtain ⟨s, hs, he⟩ := List.any_eq_true.mp hid
    obtain rfl : s.id = id := by simpa using he
    obtain ⟨pre, post, he⟩ := List.append_of_mem hs
    have hsp := Pipeline.schema_mem arena (ordered.mem s hs)
    have once := ordered.replayed catalog arena he
    have twice := find?_replayNested_settleAll catalog arena ordered he
      (startingFrom_remembers _ _ _) starts
    have here := (again_follows catalog arena ordered (pre ++ [s]) post (by simp [he])).2
    refine twice.trans (Eq.trans (congrArg some ?_) once.symm)
    refine Schema.prune_congr (here.keeps s.schema hsp) fun t ht x hx => ?_
    have hts := catalog.closed s.schema hsp t ht
    by_cases known : (again used steps steps).restrictions.find? t.name = none
    · exact Restrictions.keepsOver_of_find?_eq_none known x
    · exact (Restrictions.keepsOver_of_find?_ne_none known x).trans (follows.keeps t hts x hx)
  · have others : ∀ s ∈ steps, s.id ≠ id := fun s hs he =>
      hid (List.any_eq_true.mpr ⟨s, hs, beq_iff_eq.mpr he⟩)
    rw [find?_replayNested, find?_replayNested, find?_settleAll_of_ne others,
      find?_settleAll_of_ne others]
    rfl

/-- Resolving a target again, from the schemas that resolving it left, leaves all schemas and all
joins that are performed as they are. -/
theorem update_idempotent (built : p.Built) (consistent : p.Consistent) {t : Step}
    (ht : t ∈ p.steps) (used : UsedFields) :
    ∃ once twice, fresh.update p used t.id = .ok once ∧
      (startingFrom once.schemas).update p used t.id = .ok twice ∧
      once.schemas.contains t.id = true ∧
      twice.schemas = once.schemas ∧ twice.activeJoins = once.activeJoins := by
  have arena := built.arena
  have catalog := consistent.catalog arena
  have spec := Plan.visited_spec used arena ht
  exact ⟨_, _, Plan.update_eq used arena ht _, Plan.update_eq used arena ht _,
    contains_after_of_mem (Plan.mem_visited used arena ht),
    schemas_again catalog arena spec.ordered, activeJoins_settleAll_congr _ rfl⟩

open Plan (annotate annotated annotated_built annotated_consistent) in
theorem annotate_update_idempotent : annotated.Built ∧ annotated.Consistent ∧
    annotate ∈ annotated.steps ∧ ∃ used once twice,
      UsedFields.collect annotated annotate.id = .ok used ∧
      fresh.update annotated used annotate.id = .ok once ∧
      (startingFrom once.schemas).update annotated used annotate.id = .ok twice ∧
      once.schemas.contains annotate.id = true ∧
      twice.schemas = once.schemas ∧ twice.activeJoins = once.activeJoins := by
  have target : annotate ∈ annotated.steps := List.mem_cons_self ..
  obtain ⟨once, twice, law⟩ := update_idempotent annotated_built annotated_consistent target
    ⟨⟨["joined", "left", "right"]⟩, ⟨[]⟩⟩
  exact ⟨annotated_built, annotated_consistent, target, _, once, twice, rfl, law⟩

end RecordFlow.Resolution
