import RecordFlow.Engine.Traced
import RecordFlow.Memory.Engine
import RecordFlow.Proofs.Evaluation
import RecordFlow.Proofs.Pipeline.Workspace
import RecordFlow.Proofs.Pruning.Unrestricted

/-! Steps evaluated one after another over the datasets that are kept. A step that fails keeps what
was evaluated before it, and later evaluations start from that. Main statement: nothing of this shows,
each evaluation has the outcome of the recursion that keeps no dataset. -/

namespace RecordFlow

/-- A log does not change what the calls of a backend come to. -/
theorem Engine.traced_answers {D : Type} (f : Engine Id D) (size : D → Nat) :
    (f.traced size).Answers f := by
  constructor <;> intros <;> exact ⟨modify (_ :: ·), rfl⟩

namespace Evaluation

variable {m : Type → Type} [Monad m] {D : Type} {p : Pipeline}

/-- Evaluates steps one after another, whatever becomes of each. -/
def evaluateAll (e : Engine m D) (plan : Plan) (p : Pipeline) (ids : List StepId) :
    StateT (StepMap D) m (List (Except Error D)) :=
  ids.mapM fun id => (evaluate e plan p.steps id).run

/-- The recursion that keeps nothing: a step is evaluated after its source and the sources of its
performed joins, in this order and each of them anew. -/
def Recurs (f : Engine Id D) (plan : Plan) (p : Pipeline) (value : StepId → Except Error D) : Prop :=
  ∀ id, value id = p.step id >>= plainStep f plan value

variable {f : Engine Id D} {plan : Plan} {value value' : StepId → Except Error D}

theorem plain_of_ne {steps : List Step} {id : StepId} (h : ∀ s ∈ steps, s.id ≠ id) :
    plain f plan steps id = .error (.unknownStep id) := by
  induction steps with
  | nil => rfl
  | cons s earlier ih =>
    rw [plain, if_neg (h s (List.mem_cons_self ..))]
    exact ih fun u hu => h u (List.mem_cons_of_mem _ hu)

theorem plain_recurs (arena : Arena p.steps) : Recurs f plan p (plain f plan p.steps) := by
  intro id
  cases hstep : p.step id with
  | error error =>
    obtain ⟨rfl, missing⟩ := arena.step_eq_error.mp hstep
    exact plain_of_ne missing
  | ok s =>
    obtain ⟨hs, rfl⟩ := Pipeline.step_ok hstep
    exact plain_eq f plan arena hs

/-- Inputs are older than the step that they go into, so that the recursion has no choice. -/
theorem Recurs.unique (arena : Arena p.steps) (h : Recurs f plan p value)
    (h' : Recurs f plan p value') : value = value' := by
  funext id
  induction hn : id.number using Nat.strongRecOn generalizing id with
  | _ n ih =>
    subst hn
    rw [h, h']
    cases hstep : p.step id with
    | error error => rfl
    | ok s =>
      obtain ⟨hs, rfl⟩ := Pipeline.step_ok hstep
      refine plainStep_congr f plan fun input hinput => ?_
      obtain ⟨u, hu, rfl⟩ := arena.input_mem hs hinput
      exact ih _ (arena.input_below hs hu hinput) u.id rfl

theorem evaluateAll_computes [LawfulMonad m] {e : Engine m D} (answers : e.Answers f) (plan : Plan)
    (arena : Arena p.steps) (ids : List StepId) : ∀ c, Keeps (plain f plan p.steps) c →
      ∃ y : m {c' // Keeps (plain f plan p.steps) c'},
        (evaluateAll e plan p ids).run c =
          (fun c' => (ids.map (plain f plan p.steps), c'.1)) <$> y := by
  induction ids with
  | nil => exact fun c hc => ⟨pure ⟨c, hc⟩, by simp [evaluateAll]⟩
  | cons id rest ih =>
    intro c hc
    obtain ⟨y, first⟩ := evaluate_computes answers plan arena p.steps id List.suffix_rfl c hc
    choose z others using fun c' : {c' // Keeps (plain f plan p.steps) c'} => ih c'.1 c'.2
    refine ⟨y >>= z, ?_⟩
    rw [evaluateAll, List.mapM_cons, StateT.run_bind, first, bind_map_left, map_bind]
    refine bind_congr fun c' => ?_
    change ((evaluateAll e plan p rest).run c'.1 >>= fun r => pure (_ :: r.1, r.2)) = _
    rw [others, bind_map_left, map_eq_pure_bind]
    rfl

/-- Over a built pipeline, evaluations one after another have the outcomes of the recursion that
keeps nothing. -/
theorem evaluateAll_recurs (built : p.Built) (f : Engine Id D) (plan : Plan) :
    ∃ value, Recurs f plan p value ∧ (∀ other, Recurs f plan p other → other = value) ∧
      ∀ (m : Type → Type) [Monad m] [LawfulMonad m] (e : Engine m D), e.Answers f →
        ∀ ids, Gives ((evaluateAll e plan p ids).run' .empty) (ids.map value) := by
  have arena := built.arena
  refine ⟨_, plain_recurs arena, fun other h => h.unique arena (plain_recurs arena),
    fun m _ _ e answers ids => ?_⟩
  obtain ⟨y, he⟩ := evaluateAll_computes answers plan arena ids .empty (.empty _)
  refine ⟨(fun _ => ()) <$> y, ?_⟩
  rw [StateT.run'_eq, he, Functor.map_map, Functor.map_map]

open Plan (annotated annotated_built annotate joinRight readRight)

/-- The right side holds the same record twice. -/
def repeated : Memory.Sources :=
  { tables := [("left", [⟨[("id", .int 7)]⟩]),
      ("right", [⟨[("id", .int 7)]⟩, ⟨[("id", .int 7)]⟩])] }

/-- The join fails as often as it is asked for, and its sides can be had before and after. -/
theorem annotate_recurs : annotated.Built ∧
    ((Memory.engine repeated).traced List.length).Answers (Memory.engine repeated) ∧
    ∃ plan, Plan.build annotated annotate.id {} = .ok plan ∧
      Gives ((evaluateAll ((Memory.engine repeated).traced List.length) plan annotated
          [annotate.id, readRight.id, joinRight.id, ⟨9⟩]).run' .empty)
        [.error (.manyMatches "match" 2 (.int 7)),
          .ok [⟨[("id", .int 7)]⟩, ⟨[("id", .int 7)]⟩],
          .error (.manyMatches "match" 2 (.int 7)), .error (.unknownStep ⟨9⟩)] := by
  have answers := (Memory.engine repeated).traced_answers List.length
  refine ⟨annotated_built, answers, _, rfl, ?_⟩
  obtain ⟨value, -, unique, law⟩ := evaluateAll_recurs annotated_built (Memory.engine repeated) _
  have gives := law Traced _ answers [annotate.id, readRight.id, joinRight.id, ⟨9⟩]
  rwa [← unique _ (plain_recurs annotated_built.arena)] at gives

end Evaluation

end RecordFlow
