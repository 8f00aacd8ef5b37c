import RecordFlow.Memory.Engine
import RecordFlow.Proofs.Pipeline.Workspace
import RecordFlow.Proofs.Pruning.Needed

/-! Pipelines that grow. All that starts from a step goes down the pipeline, past the steps that
were added later. Main statement: whatever is asked for later, in this pipeline or another, the plan
for a step, its description and the records collected for it stay as they are. -/

namespace RecordFlow

/-! ### Passing over later steps -/

theorem UsedFields.visit_of_seen {steps : List Step} {t : Traversal} {id : StepId} {direct : Bool}
    (h : (id, direct) ∈ t.seen) : visit steps t id direct = .ok t := by
  cases steps <;> rw [visit, if_pos h]

theorem UsedFields.visit_of_ne {later : List Step} {t : Traversal} {u : Step} {id : StepId}
    {direct : Bool} (h : u.id ≠ id) :
    visit (u :: later) t id direct = visit later t id direct := by
  by_cases seen : (id, direct) ∈ t.seen
  · rw [visit_of_seen seen, visit_of_seen seen]
  · rw [visit, if_neg seen, if_neg h]

/-! ### A larger pipeline -/

section

variable {p p' : Pipeline} {t : Step} (arena : Arena p'.steps) (hsuffix : p.steps <:+ p'.steps)
  (ht : t ∈ p.steps)
include arena hsuffix ht

theorem Pipeline.step_grown : p'.step t.id = p.step t.id := by
  rw [arena.step_eq (hsuffix.subset ht), (arena.suffix hsuffix).step_eq ht]

theorem UsedFields.collect_grown : collect p' t.id = collect p t.id := by
  have visited := arena.eq_of_suffix hsuffix ht (visit · ⟨.empty, []⟩ t.id true)
    fun _ _ => visit_of_ne
  rw [collect, collect, visited]

theorem Resolution.update_grown (used : UsedFields) :
    fresh.update p' used t.id = fresh.update p used t.id := by
  have visited := arena.eq_of_suffix hsuffix ht (visit used · fresh t.id) fun _ _ => visit_of_ne
  rw [update, update, visited]

theorem Plan.build_grown (options : CollectOptions) :
    build p' t.id options = build p t.id options := by
  simp only [build, Pipeline.step_grown arena hsuffix ht, UsedFields.collect_grown arena hsuffix ht,
    Resolution.update_grown arena hsuffix ht]

theorem Plan.describe_grown {plan : Plan} (target : plan.target = t.id) :
    plan.describe p' = plan.describe p := by
  have listed := arena.eq_of_suffix hsuffix ht (Pipeline.postorder Step.inputs · [] t.id)
    fun _ _ => Pipeline.postorder_of_ne
  rw [describe_eq arena (hsuffix.subset ht) target,
    describe_eq (arena.suffix hsuffix) ht target, listed]

theorem Engine.collect_grown {m : Type → Type} [Monad m] {D : Type} (e : Engine m D)
    (options : CollectOptions) : e.collect p' t.id options = e.collect p t.id options := by
  have evaluated (plan : Plan) := arena.eq_of_suffix hsuffix ht
    (Evaluation.evaluate e plan · t.id) fun _ _ ne => if_neg ne
  simp only [collect, Plan.build_grown arena hsuffix ht, evaluated,
    Pipeline.step_grown arena hsuffix ht]

end

theorem Plan.target_of_build {p : Pipeline} {t : StepId} {options : CollectOptions} {plan : Plan}
    (h : build p t options = .ok plan) : plan.target = t := by
  obtain ⟨_, -, h⟩ := exists_of_bind_ok h
  split at h
  · cases h
    rfl
  · obtain ⟨used, -, h⟩ := exists_of_bind_ok h
    obtain ⟨resolution, -, h⟩ := exists_of_bind_ok h
    cases h
    rfl

namespace Workspace

/-- What calls and copies of pipelines make of nothing. -/
inductive Reachable : Workspace → Prop
  | empty : Reachable .empty
  | call {w : Workspace} (c : Call) : Reachable w → Reachable (w.perform c).2
  | copy {w : Workspace} (index : Nat) : Reachable w → Reachable (w.copy index).1

theorem pipeline_ensure (w : Workspace) (index i : Nat) :
    (w.ensure index).pipeline i = w.pipeline i := by
  rw [ensure, pipeline_setAt]
  split
  · next here => rw [here]
  · rfl

theorem pipeline_copy (w : Workspace) (index i : Nat) :
    (w.copy index).1.pipeline i = w.pipeline i ∨
      (w.copy index).1.pipeline i = w.pipeline index := by
  have same := pipeline_ensure w index
  unfold copy
  generalize w.ensure index = w' at same
  rw [← same i, ← same index]
  by_cases last : i = w'.pipelines.length
  · subst last
    exact .inr (by simp [pipeline])
  · refine .inl ?_
    simp only [pipeline, List.getD_eq_getElem?_getD, List.getElem?_append]
    split
    · rfl
    · next past =>
      rw [List.getElem?_eq_none (by simp; omega), List.getElem?_eq_none (by omega)]

theorem Sound.copy {w : Workspace} (h : w.Sound) (index : Nat) : (w.copy index).1.Sound := by
  refine ⟨fun i => ?_, fun i s hs => ?_⟩
  · rcases pipeline_copy w index i with same | same
    · exact same ▸ h.built i
    · exact same ▸ h.built index
  · rcases pipeline_copy w index i with same | same
    · exact h.below i s (same ▸ hs)
    · exact h.below index s (same ▸ hs)

theorem Reachable.sound {w : Workspace} (h : w.Reachable) : w.Sound := by
  induction h with
  | empty => exact sound_empty
  | call c _ ih => exact ih.perform c
  | copy index _ ih => exact ih.copy index

theorem Sound.keeps {w : Workspace} (h : w.Sound) (later : List Call) (i : Nat) :
    (w.pipeline i).steps <:+ ((w.after later).pipeline i).steps := by
  induction later generalizing w with
  | nil => exact List.suffix_rfl
  | cons c later ih => exact ((h.advances c).keeps i).trans (ih (h.perform c))

/-- Calls leave what starts from a step as it was: the plan of a run, its description and, whatever
the backend, the records collected. -/
theorem Reachable.after_unchanged {w : Workspace} (reachable : w.Reachable) (later : List Call)
    (i : Nat) {t : Step} (ht : t ∈ (w.pipeline i).steps) (options : CollectOptions) :
    ((w.after later).pipeline i).step t.id = (w.pipeline i).step t.id ∧
    Plan.build ((w.after later).pipeline i) t.id options =
      Plan.build (w.pipeline i) t.id options ∧
    (∀ plan, Plan.build (w.pipeline i) t.id options = .ok plan →
      plan.describe ((w.after later).pipeline i) = plan.describe (w.pipeline i)) ∧
    ∀ (m : Type → Type) [Monad m] (D : Type) (e : Engine m D),
      e.collect ((w.after later).pipeline i) t.id options =
        e.collect (w.pipeline i) t.id options := by
  have arena := ((reachable.sound.after later).built i).arena
  have hsuffix := reachable.sound.keeps later i
  exact ⟨Pipeline.step_grown arena hsuffix ht, Plan.build_grown arena hsuffix ht options,
    fun _ hplan => Plan.describe_grown arena hsuffix ht (Plan.target_of_build hplan),
    fun _ _ _ e => Engine.collect_grown arena hsuffix ht e options⟩

open Plan (left right joined readLeft)

/-- A pipeline with one step. -/
def begun : Workspace := (empty.perform ⟨0, .readCsv (.struct left) "left"⟩).2

/-- A step of another pipeline, one that is refused, and two that go on from the first. -/
def furtherCalls : List Call :=
  [⟨1, .readCsv (.struct right) "right"⟩, ⟨0, .limit ⟨1⟩ (-1)⟩, ⟨0, .limit ⟨1⟩ 5⟩,
    ⟨0, .joinLeft ⟨3⟩ (.struct joined) (·.value "id")
      [⟨"match", "right_single", .step ⟨1⟩, some (·.value "id")⟩] .unknown⟩]

def leftTable : Memory.Sources where
  tables := [("left", [⟨[("id", .int 7)]⟩])]

theorem readLeft_unchanged : begun.Reachable ∧ readLeft ∈ (begun.pipeline 0).steps ∧
    ((begun.after furtherCalls).pipeline 0).ids = [⟨1⟩, ⟨3⟩, ⟨4⟩] ∧
    Plan.build ((begun.after furtherCalls).pipeline 0) readLeft.id {} =
      Plan.build (begun.pipeline 0) readLeft.id {} ∧
    ((Memory.engine leftTable).collect (begun.pipeline 0) readLeft.id {}).run =
      .ok [⟨[("id", .int 7)]⟩] ∧
    (Memory.engine leftTable).collect ((begun.after furtherCalls).pipeline 0) readLeft.id {} =
      (Memory.engine leftTable).collect (begun.pipeline 0) readLeft.id {} := by
  have reachable : begun.Reachable := .call _ .empty
  have target : readLeft ∈ (begun.pipeline 0).steps := List.mem_cons_self ..
  obtain ⟨-, plan, -, collect⟩ := reachable.after_unchanged furtherCalls 0 target {}
  exact ⟨reachable, target, rfl, plan, rfl, collect Id _ (Memory.engine leftTable)⟩

end Workspace

end RecordFlow
