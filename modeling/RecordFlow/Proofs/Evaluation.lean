import Mathlib.Tactic.Choose
import RecordFlow.Evaluation
import RecordFlow.Proofs.Pipeline.Construction

/-! Evaluation without the datasets that are kept. A step's dataset depends on nothing but the step
and the datasets of its inputs, so what is kept never shows. -/

namespace RecordFlow

theorem exists_of_bind_ok {ε α β : Type} {x : Except ε α} {f : α → Except ε β} {b : β}
    (h : x >>= f = .ok b) : ∃ a, x = .ok a ∧ f a = .ok b := by
  cases x with
  | error e => cases h
  | ok a => exact ⟨a, rfl, h⟩

theorem exists_of_mapM_ok {ε α β : Type} {f : α → Except ε β} {as : List α} {bs : List β}
    (h : as.mapM f = .ok bs) : ∀ b ∈ bs, ∃ a ∈ as, f a = .ok b := by
  induction as generalizing bs with
  | nil =>
    cases h
    simp
  | cons a rest ih =>
    rw [List.mapM_cons] at h
    obtain ⟨b, hb, h⟩ := exists_of_bind_ok h
    obtain ⟨more, hmore, h⟩ := exists_of_bind_ok h
    cases h
    intro c hc
    rcases List.mem_cons.mp hc with rfl | hc
    · exact ⟨a, List.mem_cons_self .., hb⟩
    · obtain ⟨d, hd, hf⟩ := ih hmore c hc
      exact ⟨d, List.mem_cons_of_mem _ hd, hf⟩

/-- Where one function succeeds whenever another does, it does so along a list. -/
theorem mapM_eq_ok_map {ε α β γ : Type} {f : α → Except ε β} {f' : α → Except ε γ} {g : β → γ}
    (h : ∀ a b, f a = .ok b → f' a = .ok (g b)) {as : List α} {bs : List β}
    (run : as.mapM f = .ok bs) : as.mapM f' = .ok (bs.map g) := by
  induction as generalizing bs with
  | nil =>
    cases run
    rfl
  | cons a rest ih =>
    rw [List.mapM_cons] at run
    obtain ⟨b, hb, run⟩ := exists_of_bind_ok run
    obtain ⟨more, hmore, run⟩ := exists_of_bind_ok run
    cases run
    rw [List.mapM_cons, h a b hb, ih hmore]
    rfl

theorem mapM_eq_findSome? {ε α β : Type} {f : α → Except ε β} {refuse : α → Option ε} {g : α → β}
    (h : ∀ a, f a = (refuse a).elim (.ok (g a)) .error) (as : List α) :
    as.mapM f = (as.findSome? refuse).elim (.ok (as.map g)) .error := by
  induction as with
  | nil => rfl
  | cons a rest ih =>
    rw [List.mapM_cons, h, ih, List.findSome?_cons]
    cases refuse a with
    | some error => rfl
    | none => cases rest.findSome? refuse <;> rfl

theorem elim_eq_error_iff {ε α : Type} {refused : Option ε} {a : α} {error : ε} :
    refused.elim (.ok a) Except.error = .error error ↔ refused = some error := by
  cases refused <;> simp

namespace Evaluation

/-- A call that has one result, whatever effects it has. -/
def Gives {m : Type → Type} [Monad m] {α : Type} (call : m α) (a : α) : Prop :=
  ∃ effects : m Unit, call = (fun _ => a) <$> effects

end Evaluation

open Evaluation (Gives) in
/-- A backend whose calls have the results of another one, which has no effects: they depend on
nothing but what a call is given. -/
structure Engine.Answers {m : Type → Type} [Monad m] {D : Type} (e : Engine m D)
    (f : Engine Id D) : Prop where
  emptyDataset : ∀ c, Gives (e.emptyDataset c).run (f.emptyDataset c).run
  readCsv : ∀ c locator, Gives (e.readCsv c locator).run (f.readCsv c locator).run
  readParquet : ∀ c locator, Gives (e.readParquet c locator).run (f.readParquet c locator).run
  filter : ∀ c d predicate, Gives (e.filter c d predicate).run (f.filter c d predicate).run
  map : ∀ c d function, Gives (e.map c d function).run (f.map c d function).run
  flatMap : ∀ c d function, Gives (e.flatMap c d function).run (f.flatMap c d function).run
  aggregate : ∀ c d builder layout,
    Gives (e.aggregate c d builder layout).run (f.aggregate c d builder layout).run
  joinLeft : ∀ c left key inputs,
    Gives (e.joinLeft c left key inputs).run (f.joinLeft c left key inputs).run
  limit : ∀ c d count, Gives (e.limit c d count).run (f.limit c d count).run

theorem Engine.answers_self {D : Type} (f : Engine Id D) : f.Answers f := by
  constructor <;> intros <;> exact ⟨(), rfl⟩

namespace Evaluation

variable {m : Type → Type} [Monad m] {D : Type} {p : Pipeline}

/-- Evaluates one step, given the datasets of its inputs. -/
def plainStep (e : Engine Id D) (plan : Plan) (value : StepId → Except Error D) (step : Step) :
    Except Error D := do
  let context := plan.context step
  match step.operation with
  | .empty => (e.emptyDataset context).run
  | .readCsv locator => (e.readCsv context locator).run
  | .readParquet locator => (e.readParquet context locator).run
  | .filter source predicate => (e.filter context (← value source) predicate).run
  | .map source function => (e.map context (← value source) function).run
  | .flatMap source function => (e.flatMap context (← value source) function).run
  | .aggregate source builder layout =>
    (e.aggregate context (← value source) builder layout).run
  | .joinLeft source key _ =>
    let left ← value source
    let joins ← (plan.joinsOf step).mapM fun j => do
      return (⟨j.field, j.kind, ← j.sources.mapM value, j.key, j.indexField?⟩ : JoinInput D)
    (e.joinLeft context left key joins).run
  | .limit source count => (e.limit context (← value source) count).run

/-- The dataset of a step among steps that stand newest first, each step evaluated anew. -/
def plain (e : Engine Id D) (plan : Plan) : List Step → StepId → Except Error D
  | [], id => .error (.unknownStep id)
  | step :: earlier, id =>
    if step.id = id then plainStep e plan (plain e plan earlier) step
    else plain e plan earlier id

/-! ### Runs -/

variable {α β : Type}

theorem run_bind (x : Cached m D α) (f : α → Cached m D β) (c : StepMap D) :
    (x >>= f).run.run c = x.run.run c >>= fun r => match r.1 with
      | .ok a => (f a).run.run r.2
      | .error e => pure (.error e, r.2) := by
  rw [ExceptT.run_bind, StateT.run_bind]
  refine bind_congr fun r => ?_
  cases r.1 <;> rfl

theorem run_get [LawfulMonad m] (c : StepMap D) :
    (get : Cached m D (StepMap D)).run.run c = pure (.ok c, c) := by
  change (ExceptT.run (ExceptT.lift (get : StateT (StepMap D) m (StepMap D)))).run c = _
  simp

theorem run_modify [LawfulMonad m] (g : StepMap D → StepMap D) (c : StepMap D) :
    (modify g : Cached m D PUnit).run.run c = pure (.ok ⟨⟩, g c) := by
  change (ExceptT.run (ExceptT.lift (modify g : StateT (StepMap D) m PUnit))).run c = _
  simp

/-! ### Computations that keep datasets -/

/-- What is kept of a step is its dataset. -/
def Keeps (value : StepId → Except Error D) (c : StepMap D) : Prop :=
  ∀ id dataset, c.find? id = some dataset → value id = .ok dataset

theorem Keeps.empty (value : StepId → Except Error D) : Keeps value .empty := fun _ _ h => nomatch h

theorem Keeps.insert {value : StepId → Except Error D} {c : StepMap D} (h : Keeps value c)
    {id : StepId} {dataset : D} (he : value id = .ok dataset) :
    Keeps value (c.insert id dataset) := by
  intro i d found
  rw [StepMap.find?_insert] at found
  split at found
  · next same =>
    cases found
    rw [same, he]
  · exact h i d found

/-- A computation that gives the same from whatever is kept before, and keeps nothing wrong. -/
def Computes (value : StepId → Except Error D) (x : Cached m D α) (v : Except Error α) : Prop :=
  ∀ c, Keeps value c →
    ∃ y : m {c' // Keeps value c'}, x.run.run c = (fun c' => (v, c'.1)) <$> y

variable [LawfulMonad m] {value : StepId → Except Error D}

theorem Computes.of_eq {x : Cached m D α} {v : Except Error α}
    (h : ∀ c, x.run.run c = Pure.pure (v, c)) : Computes value x v :=
  fun c hc => ⟨Pure.pure ⟨c, hc⟩, by simp [h]⟩

theorem Computes.pure (a : α) : Computes value (Pure.pure a : Cached m D α) (.ok a) :=
  .of_eq fun _ => rfl

theorem Computes.throw (error : Error) :
    Computes value (throwThe Error error : Cached m D α) (.error error) :=
  .of_eq fun _ => rfl

theorem Computes.perform {call : ExceptT Error m α} {v : Except Error α} (h : Gives call.run v) :
    Computes value (Evaluation.perform call : Cached m D α) v := by
  intro c hc
  obtain ⟨effects, he⟩ := h
  refine ⟨(fun _ => ⟨c, hc⟩) <$> effects, ?_⟩
  simp [Evaluation.perform, he]

theorem Computes.bind {x : Cached m D α} {v : Except Error α} {f : α → Cached m D β}
    {g : α → Except Error β} (hx : Computes value x v)
    (hf : ∀ a, v = .ok a → Computes value (f a) (g a)) : Computes value (x >>= f) (v >>= g) := by
  intro c hc
  obtain ⟨y, he⟩ := hx c hc
  rw [run_bind, he, bind_map_left]
  cases v with
  | error error => exact ⟨y, (map_eq_pure_bind _ y).symm⟩
  | ok a =>
    choose z hz using fun c' : {c' // Keeps value c'} => hf a rfl c'.1 c'.2
    refine ⟨y >>= z, ?_⟩
    rw [map_bind]
    exact bind_congr hz

theorem Computes.mapM {f : α → Cached m D β} {g : α → Except Error β} (as : List α)
    (h : ∀ a ∈ as, Computes value (f a) (g a)) : Computes value (as.mapM f) (as.mapM g) := by
  induction as with
  | nil => exact .pure []
  | cons a rest ih =>
    rw [List.mapM_cons, List.mapM_cons]
    refine (h a (List.mem_cons_self ..)).bind fun b _ => ?_
    exact (ih fun a ha => h a (List.mem_cons_of_mem _ ha)).bind fun bs _ => .pure (b :: bs)

/-- The dataset of a step is kept. -/
theorem Computes.keep {id : StepId} {dataset : D} (he : value id = .ok dataset) :
    Computes value (do modify (·.insert id dataset); return dataset : Cached m D D)
      (.ok dataset) := by
  intro c hc
  refine ⟨Pure.pure ⟨c.insert id dataset, hc.insert he⟩, ?_⟩
  rw [run_bind, run_modify]
  simp

/-! ### Steps -/

theorem mem_joins_of_mem_joinsOf {plan : Plan} {s : Step} {j : Join} (hj : j ∈ plan.joinsOf s) :
    j ∈ s.joins := by
  unfold Plan.joinsOf at hj
  split at hj
  · exact (List.mem_filter.mp hj).1
  · exact hj

/-- Datasets of all inputs of a step are all that its evaluation needs. -/
theorem evaluateStep_computes {e : Engine m D} {f : Engine Id D} (answers : e.Answers f)
    (plan : Plan) {evaluate : StepId → Cached m D D} {inputs : StepId → Except Error D} {s : Step}
    (h : ∀ id ∈ s.inputs, Computes value (evaluate id) (inputs id)) :
    Computes value (evaluateStep e plan evaluate s) (plainStep f plan inputs s) := by
  unfold evaluateStep plainStep
  cases hop : s.operation with
  | empty => exact .perform (answers.emptyDataset _)
  | readCsv => exact .perform (answers.readCsv _ _)
  | readParquet => exact .perform (answers.readParquet _ _)
  | filter source | map source | flatMap source | aggregate source | limit source =>
    refine (h source (by simp [Step.inputs, Step.source?, hop, Operation.source?])).bind
      fun _ _ => .perform ?_
    first
      | exact answers.filter _ _ _
      | exact answers.map _ _ _
      | exact answers.flatMap _ _ _
      | exact answers.aggregate _ _ _ _
      | exact answers.limit _ _ _
  | joinLeft source key joins =>
    refine (h source (by simp [Step.inputs, Step.source?, hop, Operation.source?])).bind
      fun _ _ => ?_
    refine (Computes.mapM (plan.joinsOf s) fun j hj => ?_).bind
      fun _ _ => .perform (answers.joinLeft _ _ _ _)
    refine (Computes.mapM j.sources fun id hid => h id ?_).bind fun _ _ => .pure _
    exact List.mem_append_right _
      (List.mem_flatMap.mpr ⟨j, mem_joins_of_mem_joinsOf hj, hid⟩)

theorem mapM_congr {f g : α → Except Error β} {as : List α} (h : ∀ a ∈ as, f a = g a) :
    as.mapM f = as.mapM g := by
  induction as with
  | nil => rfl
  | cons a rest ih =>
    rw [List.mapM_cons, List.mapM_cons, h a (List.mem_cons_self ..),
      ih fun a ha => h a (List.mem_cons_of_mem _ ha)]

theorem plainStep_congr (e : Engine Id D) (plan : Plan) {inputs inputs' : StepId → Except Error D}
    {s : Step} (h : ∀ id ∈ s.inputs, inputs id = inputs' id) :
    plainStep e plan inputs s = plainStep e plan inputs' s := by
  unfold plainStep
  cases hop : s.operation with
  | empty | readCsv | readParquet => rfl
  | filter source | map source | flatMap source | aggregate source | limit source =>
    have same := h source (by simp [Step.inputs, Step.source?, hop, Operation.source?])
    simp only [same]
  | joinLeft source key joins =>
    have same := h source (by simp [Step.inputs, Step.source?, hop, Operation.source?])
    have sides : ∀ j ∈ plan.joinsOf s, j.sources.mapM inputs = j.sources.mapM inputs' := by
      intro j hj
      refine mapM_congr fun id hid => h id (List.mem_append_right _ ?_)
      exact List.mem_flatMap.mpr ⟨j, mem_joins_of_mem_joinsOf hj, hid⟩
    simp only [same]
    rw [mapM_congr fun j hj => by rw [sides j hj]]

theorem plain_suffix (e : Engine Id D) (plan : Plan) (arena : Arena p.steps) {steps : List Step}
    {s : Step} (hsuffix : steps <:+ p.steps) (hs : s ∈ steps) :
    plain e plan p.steps s.id = plain e plan steps s.id :=
  arena.eq_of_suffix hsuffix hs (plain e plan · s.id) fun _ _ ne => if_neg ne

/-- The dataset of a step from those of its inputs. -/
theorem plain_eq (e : Engine Id D) (plan : Plan) (arena : Arena p.steps) {s : Step}
    (hs : s ∈ p.steps) :
    plain e plan p.steps s.id = plainStep e plan (plain e plan p.steps) s := by
  obtain ⟨earlier, hsuffix, fits⟩ := arena.fits hs
  rw [plain_suffix e plan arena hsuffix (List.mem_cons_self ..), plain, if_pos rfl]
  refine plainStep_congr e plan fun id hid => ?_
  obtain ⟨u, hu, rfl⟩ := fits.inputs id hid
  exact (plain_suffix e plan arena ((List.suffix_cons _ _).trans hsuffix) hu).symm

/-- Evaluation that keeps datasets gives the dataset of each step. -/
theorem evaluate_computes {e : Engine m D} {f : Engine Id D} (answers : e.Answers f) (plan : Plan)
    (arena : Arena p.steps) : ∀ (steps : List Step) (id : StepId), steps <:+ p.steps →
      Computes (plain f plan p.steps) (evaluate e plan steps id) (plain f plan steps id)
  | [], id, _ => .throw (.unknownStep id)
  | step :: earlier, id, hsuffix => by
    have hearlier : earlier <:+ p.steps := (List.suffix_cons _ _).trans hsuffix
    unfold evaluate
    by_cases hid : step.id = id
    · subst hid
      have whole := plain_suffix f plan arena hsuffix (List.mem_cons_self ..)
      have evaluated : Computes (plain f plan p.steps)
          (evaluateStep e plan (evaluate e plan earlier) step) (plain f plan p.steps step.id) := by
        rw [whole, plain, if_pos rfl]
        exact evaluateStep_computes answers plan fun id _ =>
          evaluate_computes answers plan arena earlier id hearlier
      rw [if_pos rfl, ← whole]
      intro c hc
      rw [run_bind, run_get, pure_bind]
      cases hf : c.find? step.id with
      | some dataset =>
        simp only [hf, hc step.id dataset hf]
        exact Computes.pure dataset c hc
      | none =>
        have kept := evaluated.bind (g := Pure.pure) fun dataset hd => .keep hd
        rw [bind_pure] at kept
        simp only [hf]
        exact kept c hc
    · rw [if_neg hid, plain, if_neg hid]
      exact evaluate_computes answers plan arena earlier id hearlier

/-- A run that is planned evaluates its target and gives the records. -/
theorem collect_eq (e : Engine Id D) (arena : Arena p.steps) {t : Step} (ht : t ∈ p.steps)
    {options : CollectOptions} {plan : Plan} (hplan : Plan.build p t.id options = .ok plan) :
    (e.collect p t.id options).run =
      (plain e plan p.steps t.id).bind fun dataset =>
        (e.materialize (plan.context t) dataset).run := by
  obtain ⟨c, he⟩ := evaluate_computes (m := Id) e.answers_self plan arena p.steps t.id
    List.suffix_rfl .empty (.empty _)
  have run : (e.collect p t.id options).run =
      ((ExceptT.mk ((evaluate e plan p.steps t.id).run.run .empty).1 : ExceptT Error Id D) >>=
        fun dataset => e.materialize (plan.context t) dataset).run := by
    unfold Engine.collect
    rw [hplan, arena.step_eq ht]
    rfl
  rw [run, he]
  cases plain e plan p.steps t.id <;> rfl

end Evaluation

end RecordFlow
