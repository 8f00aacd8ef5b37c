import Mathlib.Data.List.Induction
import RecordFlow.Proofs.Pipeline.Construction

/-! Pipelines that are built side by side, with ids from one counter. A call adds one step to one
pipeline or changes nothing, and what was added stays. Main statement: after any calls every pipeline
is well-formed, no two share an id, and each holds just the steps that were asked for there. -/

namespace RecordFlow

/-- Steps in the order of construction, with rising ids, each after its inputs. -/
structure Pipeline.WellFormed (p : Pipeline) : Prop where
  rising : p.ids.Pairwise (·.number < ·.number)
  inputs : ∀ s earlier, s :: earlier <:+ p.steps → ∀ id ∈ s.inputs, ∃ t ∈ earlier, t.id = id
  single : ∀ s ∈ p.steps, ∀ j ∈ s.joins, j.kind ≠ .multiArray → ∃ id, j.sources = [id]
  passed : ∀ s ∈ p.steps, ∀ id, s.operation.passed? = some id →
    ∃ t ∈ p.steps, t.id = id ∧ t.seed = s.seed ∧ t.schema = s.schema
  found : ∀ id s, p.step id = .ok s ↔ s ∈ p.steps ∧ s.id = id
  unknown : ∀ id e, p.step id = .error e ↔ e = .unknownStep id ∧ ∀ s ∈ p.steps, s.id ≠ id

theorem Arena.step_eq_error {p : Pipeline} (h : Arena p.steps) {id : StepId} {e : Error} :
    p.step id = .error e ↔ e = .unknownStep id ∧ ∀ s ∈ p.steps, s.id ≠ id := by
  constructor
  · intro failed
    have missing : ∀ s ∈ p.steps, s.id ≠ id := by
      rintro s hs rfl
      rw [h.step_eq hs] at failed
      cases failed
    unfold Pipeline.step at failed
    split at failed
    · cases failed
    · exact ⟨(Except.error.inj failed).symm, missing⟩
  · rintro ⟨rfl, missing⟩
    cases hf : p.find? id with
    | none => rw [Pipeline.step, hf]
    | some s =>
      obtain ⟨hs, hid⟩ := Pipeline.mem_of_find? hf
      exact absurd hid (missing s hs)

theorem Pipeline.Built.wellFormed {p : Pipeline} (h : p.Built) : p.WellFormed := by
  have arena := h.arena
  refine ⟨?_, fun s earlier hsuffix => (arena.suffix hsuffix).1.inputs, fun s hs => ?_,
    fun s hs id hp => ?_, fun id s => ?_, fun id e => arena.step_eq_error⟩
  · exact List.pairwise_map.mpr arena.rising
  · obtain ⟨_, _, fits⟩ := arena.fits hs
    exact fits.single
  · obtain ⟨earlier, hsuffix, fits⟩ := arena.fits hs
    obtain ⟨t, ht, hid, hseed⟩ := fits.passed id hp
    have ht := hsuffix.subset (List.mem_cons_of_mem _ ht)
    exact ⟨t, ht, hid, hseed, by rw [arena.derived ht, arena.derived hs, hseed]⟩
  · refine ⟨Pipeline.step_ok, ?_⟩
    rintro ⟨hs, rfl⟩
    exact arena.step_eq hs

namespace Workspace

/-- What is asked for, and in which pipeline. -/
structure Call where
  index : Nat
  request : Pipeline.Request

/-- The outcome of a call and what it leaves. -/
def perform (w : Workspace) (c : Call) : Except Error StepId × Workspace :=
  (construct c.index c.request).run.run w

/-- What is left after some calls, whether they succeeded or not. -/
def after (w : Workspace) (calls : List Call) : Workspace :=
  calls.foldl (fun w c => (w.perform c).2) w

def run (calls : List Call) : Workspace := empty.after calls

/-- No id occurs in two pipelines. -/
def Apart (w : Workspace) : Prop :=
  ∀ i j, ∀ s ∈ (w.pipeline i).steps, ∀ t ∈ (w.pipeline j).steps, s.id = t.id → i = j

/-- What a call asks for is a step that goes with those that are there. -/
def Makes (w : Workspace) (c : Call) (s : Step) : Prop :=
  (w.pipeline c.index).resolve w.next c.request = .ok s

/-- One of the calls made the step, in the pipeline at a position. -/
def MadeBy (calls : List Call) (i : Nat) (s : Step) : Prop :=
  ∃ before c, before ++ [c] <+: calls ∧ c.index = i ∧ (run before).Makes c s

/-- A call takes the next id for a step on top of one pipeline, or it fails and changes nothing. -/
structure Advances (w : Workspace) (c : Call) (outcome : Except Error StepId) (w' : Workspace) :
    Prop where
  refused : ∀ e, outcome = .error e → w' = w
  accepted : ∀ id, outcome = .ok id → id = w.next ∧ w'.next = ⟨w.next.number + 1⟩ ∧
    ∃ s, w.Makes c s ∧ s.id = id ∧ w'.pipeline c.index = (w.pipeline c.index).push s
  elsewhere : ∀ i, i ≠ c.index → w'.pipeline i = w.pipeline i
  keeps : ∀ i, (w.pipeline i).steps <:+ (w'.pipeline i).steps

/-! ### Positions -/

theorem getD_setAt (i j : Nat) (p : Pipeline) (pipelines : List Pipeline) :
    (setAt i p pipelines).getD j .empty = if j = i then p else pipelines.getD j .empty := by
  induction pipelines generalizing i j with
  | nil =>
    rw [setAt, List.getD_eq_getElem?_getD, List.getElem?_append, List.length_replicate]
    grind
  | cons q rest ih =>
    cases i with
    | zero => cases j <;> simp [setAt]
    | succ i =>
      cases j with
      | zero => simp [setAt]
      | succ j => simpa [setAt] using ih i j

theorem pipeline_setAt (w : Workspace) (next : StepId) (i j : Nat) (p : Pipeline) :
    (⟨next, setAt i p w.pipelines⟩ : Workspace).pipeline j = if j = i then p else w.pipeline j :=
  getD_setAt i j p w.pipelines

/-! ### One call -/

theorem perform_eq (w : Workspace) (c : Call) :
    w.perform c = match (w.pipeline c.index).resolve w.next c.request with
      | .ok step => (.ok w.next,
          ⟨⟨w.next.number + 1⟩, setAt c.index ((w.pipeline c.index).push step) w.pipelines⟩)
      | .error e => (.error e, w) := by
  change (ExceptT.bindCont _ ((w.pipeline c.index).resolve w.next c.request) : StateM _ _) w = _
  cases (w.pipeline c.index).resolve w.next c.request <;> rfl

/-- Every pipeline grew by accepted steps with ids that are taken. -/
structure Sound (w : Workspace) : Prop where
  built : ∀ i, (w.pipeline i).Built
  below : ∀ i, ∀ s ∈ (w.pipeline i).steps, s.id.number < w.next.number

theorem Sound.makes_id {w : Workspace} (h : w.Sound) {c : Call} {s : Step} (made : w.Makes c s) :
    s.id = w.next :=
  (Pipeline.resolve_fits (h.below c.index) (h.built c.index).arena made).1

/-- A call that makes a step puts it on top of its pipeline, any other changes nothing. -/
theorem perform_cases (w : Workspace) (c : Call) :
    (∃ e, w.perform c = (.error e, w) ∧ ∀ s, ¬ w.Makes c s) ∨
    ∃ s w', w.perform c = (.ok w.next, w') ∧ w.Makes c s ∧ w'.next = ⟨w.next.number + 1⟩ ∧
      ∀ i, w'.pipeline i = if i = c.index then (w.pipeline i).push s else w.pipeline i := by
  rw [perform_eq]
  cases made : (w.pipeline c.index).resolve w.next c.request with
  | error e =>
    refine .inl ⟨e, rfl, fun s makes => ?_⟩
    cases made.symm.trans makes
  | ok s =>
    refine .inr ⟨s, _, rfl, made, rfl, fun i => ?_⟩
    rw [pipeline_setAt]
    split
    · next here => rw [here]
    · rfl

theorem Sound.advances {w : Workspace} (h : w.Sound) (c : Call) :
    Advances w c (w.perform c).1 (w.perform c).2 := by
  rcases perform_cases w c with ⟨e, he, -⟩ | ⟨s, w', he, made, hnext, hpipeline⟩
  · rw [he]
    exact ⟨fun _ _ => rfl, by simp, fun _ _ => rfl, fun _ => List.suffix_rfl⟩
  · rw [he]
    refine ⟨by simp, ?_, fun i ne => ?_, fun i => ?_⟩
    · rintro _ ⟨⟩
      exact ⟨rfl, hnext, s, made, h.makes_id made, by rw [hpipeline, if_pos rfl]⟩
    · rw [hpipeline, if_neg ne]
    · rw [hpipeline]
      split
      · exact List.suffix_cons ..
      · exact List.suffix_rfl

theorem Sound.perform {w : Workspace} (h : w.Sound) (c : Call) : (w.perform c).2.Sound := by
  rcases perform_cases w c with ⟨e, he, -⟩ | ⟨s, w', he, made, hnext, hpipeline⟩
  · rw [he]
    exact h
  · rw [he]
    refine ⟨fun i => ?_, fun i t ht => ?_⟩
    · rw [hpipeline]
      split
      · next here =>
        subst here
        exact .push (h.built _) (h.below _) made
      · exact h.built i
    · rw [hpipeline] at ht
      rw [hnext]
      split at ht
      · rcases List.mem_cons.mp ht with rfl | ht
        · rw [h.makes_id made]
          exact Nat.lt_succ_self _
        · exact Nat.lt_succ_of_lt (h.below i t ht)
      · exact Nat.lt_succ_of_lt (h.below i t ht)

/-- The new step is the only one with its id. -/
theorem Apart.perform {w : Workspace} (apart : w.Apart) (h : w.Sound) (c : Call) :
    (w.perform c).2.Apart := by
  rcases perform_cases w c with ⟨e, he, -⟩ | ⟨s, w', he, made, -, hpipeline⟩
  · rw [he]
    exact apart
  · rw [he]
    have new {i : Nat} {t : Step} (ht : t ∈ (w'.pipeline i).steps) :
        (i = c.index ∧ t = s) ∨ t ∈ (w.pipeline i).steps := by
      rw [hpipeline] at ht
      split at ht
      · next here => exact (List.mem_cons.mp ht).imp_left fun same => ⟨here, same⟩
      · exact .inr ht
    have fresh {i : Nat} {t : Step} (ht : t ∈ (w.pipeline i).steps) : t.id ≠ s.id := by
      intro same
      have := h.below i t ht
      rw [same, h.makes_id made] at this
      exact Nat.lt_irrefl _ this
    intro i j t ht u hu same
    rcases new ht with ⟨rfl, rfl⟩ | ht <;> rcases new hu with ⟨rfl, rfl⟩ | hu
    · rfl
    · exact absurd same.symm (fresh hu)
    · exact absurd same (fresh ht)
    · exact apart i j t ht u hu same

/-! ### Runs -/

theorem run_concat (calls : List Call) (c : Call) :
    run (calls ++ [c]) = ((run calls).perform c).2 := by
  rw [run, after, List.foldl_append]
  rfl

theorem sound_empty : empty.Sound := ⟨fun _ => .empty, fun _ _ hs => nomatch hs⟩

theorem Sound.after {w : Workspace} (h : w.Sound) (calls : List Call) : (w.after calls).Sound := by
  induction calls generalizing w with
  | nil => exact h
  | cons c later ih => exact ih (h.perform c)

theorem apart_run (calls : List Call) : (run calls).Apart := by
  induction calls using List.reverseRecOn with
  | nil => exact fun _ _ _ hs => nomatch hs
  | append_singleton calls c ih =>
    rw [run_concat]
    exact ih.perform (sound_empty.after calls) c

theorem madeBy_concat {calls : List Call} {c : Call} {i : Nat} {s : Step} :
    MadeBy (calls ++ [c]) i s ↔ MadeBy calls i s ∨ (c.index = i ∧ (run calls).Makes c s) := by
  constructor
  · rintro ⟨before, d, front, hi, made⟩
    rcases List.prefix_concat_iff.mp front with last | front
    · obtain ⟨rfl, same⟩ := List.append_inj' last rfl
      cases List.singleton_inj.mp same
      exact .inr ⟨hi, made⟩
    · exact .inl ⟨before, d, front, hi, made⟩
  · rintro (⟨before, d, front, made⟩ | made)
    · exact ⟨before, d, front.trans (List.prefix_append ..), made⟩
    · exact ⟨calls, c, List.prefix_rfl, made⟩

/-- A pipeline holds the steps that were made there and no others. -/
theorem mem_run_iff {calls : List Call} {i : Nat} {s : Step} :
    s ∈ ((run calls).pipeline i).steps ↔ MadeBy calls i s := by
  induction calls using List.reverseRecOn with
  | nil =>
    refine ⟨fun hs => (nomatch hs), ?_⟩
    rintro ⟨before, c, front, -⟩
    exact absurd (List.prefix_nil.mp front) (by simp)
  | append_singleton calls c ih =>
    rw [madeBy_concat, ← ih, run_concat]
    rcases perform_cases (run calls) c with ⟨e, he, none⟩ | ⟨t, w', he, made, -, hpipeline⟩
    · rw [he]
      exact ⟨.inl, fun h => h.elim id fun h => absurd h.2 (none s)⟩
    · rw [he, hpipeline]
      have only : (run calls).Makes c s ↔ s = t :=
        ⟨fun h => Except.ok.inj (h.symm.trans made), fun h => h ▸ made⟩
      rw [only]
      split
      · next here => simp [Pipeline.push, here, or_comm]
      · next elsewhere => simp [Ne.symm elsewhere]

/-- Whatever is asked for: every pipeline is well-formed and holds what was made there, no two share
an id, and one more call adds a step or changes nothing. -/
theorem run_wellFormed (calls : List Call) :
    (∀ i, ((run calls).pipeline i).WellFormed ∧
      ∀ s, s ∈ ((run calls).pipeline i).steps ↔ MadeBy calls i s) ∧
    (run calls).Apart ∧
    ∀ c, Advances (run calls) c ((run calls).perform c).1 (run (calls ++ [c])) := by
  have sound : (run calls).Sound := sound_empty.after calls
  refine ⟨fun i => ⟨(sound.built i).wellFormed, fun s => mem_run_iff⟩, apart_run calls, fun c => ?_⟩
  rw [run_concat]
  exact sound.advances c

end Workspace

end RecordFlow
