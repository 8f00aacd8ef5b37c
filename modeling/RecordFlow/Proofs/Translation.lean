import RecordFlow.Proofs.Evaluation
import RecordFlow.Proofs.Pipeline.Postorder

/-! The calls that an evaluation makes of its backend. A backend that keeps a log of the steps it
translates does the same otherwise, and the log tells which steps were translated, and in which order.
Main statement: if no call fails, the log is the order of a traversal along the source of each step
and its performed joins. -/

namespace RecordFlow

namespace Evaluation

variable {m : Type → Type} [Monad m] {D α β : Type}

/-- Appends the step of a call to a log. -/
def note (context : StepContext) (call : ExceptT Error m α) :
    ExceptT Error (StateT (List StepId) m) α :=
  ExceptT.mk fun log => (·, log ++ [context.step.id]) <$> call.run

end Evaluation

open Evaluation in
/-- The same backend with a log of the steps that it translates. -/
def Engine.logged {m : Type → Type} [Monad m] {D : Type} (e : Engine m D) :
    Engine (StateT (List StepId) m) D where
  name := e.name
  emptyDataset c := note c (e.emptyDataset c)
  readCsv c locator := note c (e.readCsv c locator)
  readParquet c locator := note c (e.readParquet c locator)
  filter c d predicate := note c (e.filter c d predicate)
  map c d function := note c (e.map c d function)
  flatMap c d function := note c (e.flatMap c d function)
  aggregate c d builder layout := note c (e.aggregate c d builder layout)
  joinLeft c left key inputs := note c (e.joinLeft c left key inputs)
  limit c d count := note c (e.limit c d count)
  materialize c d := ExceptT.mk (StateT.lift (e.materialize c d).run)

namespace Evaluation

variable {m : Type → Type} [Monad m] {D α β : Type}

/-- A call that does not fail, whatever effects it has. -/
def Succeeds (call : ExceptT Error m α) : Prop := ∃ outcome : m α, call.run = Except.ok <$> outcome

end Evaluation

namespace Evaluation

variable {m : Type → Type} [Monad m] {D α β : Type}

/-- Datasets are kept of just these steps. -/
def Holds (kept : List Step) (c : StepMap D) : Prop :=
  ∀ id, c.contains id = kept.any (·.id == id)

/-- A computation and its logged form that give the same, without failing: from datasets of the steps
`kept` and the log `log` they get to datasets of `kept'` and the log `log'`. -/
def Logs (kept : List Step) (log : List StepId) (x : Cached m D α)
    (x' : Cached (StateT (List StepId) m) D α) (kept' : List Step) (log' : List StepId) : Prop :=
  ∀ c, Holds kept c → ∃ y : m {r : α × StepMap D // Holds kept' r.2},
    x.run.run c = (fun r => (.ok r.1.1, r.1.2)) <$> y ∧
    (x'.run.run c).run log = (fun r => ((.ok r.1.1, r.1.2), log')) <$> y

/-- The computation goes through some steps: it keeps their datasets and has them in the log. -/
abbrev Walks (done : List Step) (x : Cached m D α) (x' : Cached (StateT (List StepId) m) D α)
    (done' : List Step) : Prop :=
  Logs done (done.map (·.id)) x x' done' (done'.map (·.id))

variable [LawfulMonad m] {kept kept' kept'' : List Step} {log log' log'' : List StepId}

theorem Holds.insert {c : StepMap D} (h : Holds kept c) (s : Step) (dataset : D) :
    Holds (kept ++ [s]) (c.insert s.id dataset) := by
  intro id
  have before := h id
  rw [StepMap.contains] at before ⊢
  rw [StepMap.find?_insert, List.any_append, ← before]
  by_cases same : id = s.id
  · simp [same]
  · simp [same, Ne.symm same]

theorem Logs.pure (a : α) :
    Logs kept log (Pure.pure a : Cached m D α) (Pure.pure a) kept log := by
  intro c hc
  exact ⟨Pure.pure ⟨(a, c), hc⟩, by simp, by simp⟩

theorem Logs.bind {x : Cached m D α} {x' : Cached (StateT (List StepId) m) D α}
    {f : α → Cached m D β} {f' : α → Cached (StateT (List StepId) m) D β}
    (hx : Logs kept log x x' kept' log')
    (hf : ∀ a, Logs kept' log' (f a) (f' a) kept'' log'') :
    Logs kept log (x >>= f) (x' >>= f') kept'' log'' := by
  intro c hc
  obtain ⟨y, plain, logged⟩ := hx c hc
  choose z hplain hlogged using fun r : {r : α × StepMap D // Holds kept' r.2} =>
    hf r.1.1 r.1.2 r.2
  refine ⟨y >>= z, ?_, ?_⟩
  · rw [run_bind, plain, bind_map_left, map_bind]
    exact bind_congr hplain
  · rw [run_bind, StateT.run_bind, logged, bind_map_left, map_bind]
    exact bind_congr hlogged

theorem Logs.mapM {f : α → Cached m D β} {f' : α → Cached (StateT (List StepId) m) D β}
    {g : List Step → α → List Step} (as : List α)
    (h : ∀ a ∈ as, ∀ done, Walks done (f a) (f' a) (g done a)) (done : List Step) :
    Walks done (as.mapM f) (as.mapM f') (as.foldl g done) := by
  induction as generalizing done with
  | nil => exact .pure []
  | cons a rest ih =>
    rw [List.mapM_cons, List.mapM_cons]
    refine (h a (List.mem_cons_self ..) done).bind fun b => ?_
    exact (ih (fun a ha => h a (List.mem_cons_of_mem _ ha)) (g done a)).bind
      fun bs => .pure (b :: bs)

/-- A call adds its step to the log and keeps no dataset. -/
theorem Logs.perform {call : ExceptT Error m α} (h : Succeeds call) (context : StepContext) :
    Logs kept log (Evaluation.perform call : Cached m D α) (Evaluation.perform (note context call))
      kept (log ++ [context.step.id]) := by
  intro c hc
  obtain ⟨outcome, he⟩ := h
  have noted : (note context call).run.run log =
      (fun a => (.ok a, log ++ [context.step.id])) <$> outcome := by
    simp [note, StateT.run, he]
  refine ⟨(fun a => ⟨(a, c), hc⟩) <$> outcome, ?_, ?_⟩
  · simp [Evaluation.perform, he]
  · simp [Evaluation.perform, noted]

/-- The dataset of a step is kept once. -/
theorem Logs.keep (s : Step) (dataset : D) :
    Logs kept log (do modify (·.insert s.id dataset); return dataset : Cached m D D)
      (do modify (·.insert s.id dataset); return dataset) (kept ++ [s]) log := by
  intro c hc
  refine ⟨Pure.pure ⟨(dataset, c.insert s.id dataset), hc.insert s dataset⟩, ?_, ?_⟩
  · rw [run_bind, run_modify]
    simp
  · rw [run_bind, run_modify]
    simp

end Evaluation

end RecordFlow
