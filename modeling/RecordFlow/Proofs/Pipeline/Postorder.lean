import Mathlib.Data.List.Induction
import RecordFlow.Proofs.Pipeline.Paths

/-! Depth-first traversals of a pipeline. A traversal goes from a step to the steps that are next to
it, some of its inputs, and then adds the step itself. Main statement: it gives the steps that are
reached in this way, each once and after those next to it. -/

namespace RecordFlow

/-- A list with a last element, taken apart at one of its elements. -/
theorem concat_eq_append_cons {α : Type} {xs pre post : List α} {x y : α}
    (h : xs ++ [x] = pre ++ y :: post) :
    (pre = xs ∧ y = x ∧ post = []) ∨ ∃ rest, post = rest ++ [x] ∧ xs = pre ++ y :: rest := by
  rcases List.eq_nil_or_concat post with rfl | ⟨rest, z, rfl⟩
  · obtain ⟨rfl, last⟩ := List.append_inj' h rfl
    exact .inl ⟨rfl, (List.singleton_inj.mp last).symm, rfl⟩
  · have h' : xs ++ [x] = (pre ++ y :: rest) ++ [z] := by simpa using h
    obtain ⟨rfl, last⟩ := List.append_inj' h' rfl
    cases List.singleton_inj.mp last
    exact .inr ⟨rest, by simp, rfl⟩

namespace Pipeline

variable {p : Pipeline} {next : Step → List StepId}

/-- Extends `done` by what is reached from a step and by the step itself. -/
def postorder (next : Step → List StepId) : List Step → List Step → StepId → List Step
  | [], done, _ => done
  | step :: earlier, done, id =>
    if done.any (·.id == id) then done
    else if step.id = id then (next step).foldl (postorder next earlier) done ++ [step]
    else postorder next earlier done id

/-- An edge that a traversal takes. -/
def Follows (p : Pipeline) (next : Step → List StepId) (s t : Step) : Prop :=
  t ∈ p.steps ∧ t.id ∈ next s

/-- Steps of a pipeline, each once and after those next to it. -/
structure InOrder (p : Pipeline) (next : Step → List StepId) (steps : List Step) : Prop where
  mem : ∀ s ∈ steps, s ∈ p.steps
  before : ∀ pre s post, steps = pre ++ s :: post →
    s ∉ pre ∧ ∀ id ∈ next s, ∃ t ∈ pre, t.id = id

/-- What was done, extended by steps that are reached from the roots, the roots among them. -/
structure Traversed (p : Pipeline) (next : Step → List StepId) (roots : List StepId)
    (done steps : List Step) : Prop where
  ordered : p.InOrder next steps
  keeps : ∀ u ∈ done, u ∈ steps
  entered : ∀ id ∈ roots, ∃ u ∈ steps, u.id = id
  reached : ∀ u ∈ steps,
    u ∈ done ∨ ∃ r ∈ p.steps, r.id ∈ roots ∧ Relation.ReflTransGen (p.Follows next) r u

theorem any_id_iff (arena : Arena p.steps) {done : List Step} (hdone : ∀ u ∈ done, u ∈ p.steps)
    {s : Step} (hs : s ∈ p.steps) : done.any (·.id == s.id) = true ↔ s ∈ done := by
  rw [List.any_eq_true]
  constructor
  · intro same
    obtain ⟨u, hu, he⟩ := same
    exact arena.id_injective (hdone u hu) hs (by simpa using he) ▸ hu
  · intro h
    exact ⟨s, h, by simp⟩

/-! ### Steps in order -/

theorem InOrder.nil : p.InOrder next [] := by
  refine ⟨fun _ hs => absurd hs List.not_mem_nil, fun pre s post h => ?_⟩
  cases pre <;> cases h

theorem InOrder.concat {steps : List Step} {s : Step} (h : p.InOrder next steps)
    (hs : s ∈ p.steps) (hnew : s ∉ steps) (inputs : ∀ id ∈ next s, ∃ t ∈ steps, t.id = id) :
    p.InOrder next (steps ++ [s]) := by
  refine ⟨fun u hu => ?_, fun pre u post he => ?_⟩
  · rcases List.mem_append.mp hu with hu | hu
    · exact h.mem u hu
    · rw [List.mem_singleton.mp hu]
      exact hs
  · rcases concat_eq_append_cons he with ⟨rfl, rfl, -⟩ | ⟨rest, -, split⟩
    · exact ⟨hnew, inputs⟩
    · exact h.before pre u rest split

/-- Some of the steps are in order among themselves if all that is next to one of them is kept. -/
theorem InOrder.filter {steps : List Step} {keep : Step → Bool} {next' : Step → List StepId}
    (h : p.InOrder next steps)
    (closed : ∀ s ∈ steps, keep s = true → ∀ id ∈ next' s,
      id ∈ next s ∧ ∀ t ∈ steps, t.id = id → keep t = true) :
    p.InOrder next' (steps.filter keep) := by
  refine ⟨fun s hs => h.mem s (List.mem_filter.mp hs).1, fun pre s post he => ?_⟩
  obtain ⟨front, back, rfl, rfl, hback⟩ := List.filter_eq_append_iff.mp he
  obtain ⟨skipped, rest, rfl, dropped, kept, -⟩ := List.filter_eq_cons_iff.mp hback
  obtain ⟨hnew, inputs⟩ := h.before (front ++ skipped) s rest (by simp)
  refine ⟨fun hs => hnew (List.mem_append_left _ (List.mem_filter.mp hs).1), fun id hid => ?_⟩
  obtain ⟨listed, stays⟩ := closed s (by simp) kept id hid
  obtain ⟨t, ht, rfl⟩ := inputs id listed
  rcases List.mem_append.mp ht with ht | ht
  · exact ⟨t, List.mem_filter.mpr ⟨ht, stays t (by simp [ht]) rfl⟩, rfl⟩
  · exact absurd (stays t (by simp [ht]) rfl) (dropped t ht)

theorem InOrder.nodup {steps : List Step} (h : p.InOrder next steps) : steps.Nodup := by
  induction steps using List.reverseRecOn with
  | nil => exact .nil
  | append_singleton steps s ih =>
    have front : p.InOrder next steps :=
      ⟨fun u hu => h.mem u (List.mem_append_left _ hu),
        fun pre u post he => h.before pre u (post ++ [s]) (by simp [he])⟩
    refine List.nodup_append.mpr ⟨ih front, List.pairwise_singleton _ s, fun u hu v hv => ?_⟩
    obtain rfl := List.mem_singleton.mp hv
    rintro rfl
    exact (h.before steps u [] rfl).1 hu

/-! ### The traversal -/

theorem postorder_of_done {steps done : List Step} {id : StepId}
    (h : done.any (·.id == id) = true) : postorder next steps done id = done := by
  cases steps with
  | nil => rfl
  | cons => rw [postorder, if_pos h]

theorem postorder_self {earlier done : List Step} {s : Step}
    (h : ¬ done.any (·.id == s.id) = true) : postorder next (s :: earlier) done s.id =
      (next s).foldl (postorder next earlier) done ++ [s] := by
  rw [postorder, if_neg h, if_pos rfl]

theorem postorder_of_ne {earlier done : List Step} {s : Step} {id : StepId} (h : s.id ≠ id) :
    postorder next (s :: earlier) done id = postorder next earlier done id := by
  by_cases hdone : done.any (·.id == id) = true
  · rw [postorder_of_done hdone, postorder_of_done hdone]
  · rw [postorder, if_neg hdone, if_neg h]

theorem foldl_postorder {earlier : List Step}
    (spec : ∀ done s, s ∈ earlier → p.InOrder next done →
      p.Traversed next [s.id] done (postorder next earlier done s.id)) (ids : List StepId)
    (hids : ∀ id ∈ ids, ∃ s ∈ earlier, s.id = id) {done : List Step} (h : p.InOrder next done) :
    p.Traversed next ids done (ids.foldl (postorder next earlier) done) := by
  induction ids generalizing done with
  | nil => exact ⟨h, fun _ hu => hu, by simp, fun u hu => .inl hu⟩
  | cons id rest ih =>
    obtain ⟨s, hs, rfl⟩ := hids id (List.mem_cons_self ..)
    have first := spec done s hs h
    have later := ih (fun i hi => hids i (List.mem_cons_of_mem _ hi)) first.ordered
    refine ⟨later.ordered, fun u hu => later.keeps u (first.keeps u hu), ?_, fun u hu => ?_⟩
    · intro id hid
      rcases List.mem_cons.mp hid with rfl | hid
      · obtain ⟨u, hu, he⟩ := first.entered s.id (List.mem_singleton.mpr rfl)
        exact ⟨u, later.keeps u hu, he⟩
      · exact later.entered id hid
    · rcases later.reached u hu with hu | ⟨r, hr, hid, path⟩
      · rcases first.reached u hu with hu | ⟨r, hr, hid, path⟩
        · exact .inl hu
        · exact .inr ⟨r, hr, List.mem_cons.mpr (.inl (List.mem_singleton.mp hid)), path⟩
      · exact .inr ⟨r, hr, List.mem_cons_of_mem _ hid, path⟩

section

variable (within : ∀ s, ∀ id ∈ next s, id ∈ s.inputs)
include within

theorem Follows.hasInput {s t : Step} (h : p.Follows next s t) : p.HasInput s t :=
  hasInput_iff.mpr ⟨h.1, within s t.id h.2⟩

/-- What is done in order is extended in order by what is reached from a step. -/
theorem postorder_spec (arena : Arena p.steps) :
    ∀ (steps done : List Step) (s : Step), steps <:+ p.steps → s ∈ steps → p.InOrder next done →
      p.Traversed next [s.id] done (postorder next steps done s.id)
  | [], _, _, _, hs, _ => by cases hs
  | step :: earlier, done, s, hsuffix, hs, h => by
    have hearlier : earlier <:+ p.steps := (List.suffix_cons _ _).trans hsuffix
    have hsp : s ∈ p.steps := hsuffix.subset hs
    by_cases hdone : done.any (·.id == s.id) = true
    · rw [postorder_of_done hdone]
      have hmem := (any_id_iff arena h.mem hsp).mp hdone
      exact ⟨h, fun _ hu => hu, by simpa using ⟨s, hmem, rfl⟩, fun u hu => .inl hu⟩
    rcases (arena.suffix hsuffix).eq_or_mem hs with rfl | ⟨hid, hs'⟩
    · rw [postorder_self hdone]
      have fits := (arena.suffix hsuffix).1
      have inputs := foldl_postorder
        (fun done u hu hd => postorder_spec arena earlier done u hearlier hu hd)
        (next step) (fun id hid => fits.inputs id (within step id hid)) h
      -- All that was added lies below the step.
      have hnew : step ∉ (next step).foldl (postorder next earlier) done := by
        intro hmem
        rcases inputs.reached step hmem with hmem | ⟨r, hr, hid, path⟩
        · exact hdone ((any_id_iff arena h.mem hsp).mpr hmem)
        · have path : p.Reaches r step :=
            Relation.ReflTransGen.mono (fun _ _ => Follows.hasInput within) _ _ path
          have := path.below arena hr
          have := arena.input_below hsp hr (within step r.id hid)
          omega
      refine ⟨inputs.ordered.concat hsp hnew inputs.entered, ?_, ?_, ?_⟩
      · exact fun u hu => List.mem_append_left _ (inputs.keeps u hu)
      · simp
      · intro u hu
        rcases List.mem_append.mp hu with hu | hu
        · rcases inputs.reached u hu with hu | ⟨r, hr, hid, path⟩
          · exact .inl hu
          · exact .inr ⟨step, hsp, List.mem_singleton.mpr rfl, .head ⟨hr, hid⟩ path⟩
        · rw [List.mem_singleton.mp hu]
          exact .inr ⟨step, hsp, List.mem_singleton.mpr rfl, .refl⟩
    · rw [postorder_of_ne hid]
      exact postorder_spec arena earlier done s hearlier hs' h

end

/-! ### The steps a step depends on -/

/-- Reaching a step goes through all its inputs as a traversal does. -/
theorem reach_eq (arena : Arena p.steps) :
    ∀ (steps done : List Step) (s : Step), steps <:+ p.steps → s ∈ steps →
      reach steps (done.map (·.id)) s.id =
        .ok ((postorder Step.inputs steps done s.id).map (·.id))
  | [], _, _, _, hs => by cases hs
  | step :: earlier, done, s, hsuffix, hs => by
    have hearlier : earlier <:+ p.steps := (List.suffix_cons _ _).trans hsuffix
    have listed : s.id ∈ done.map (·.id) ↔ done.any (·.id == s.id) = true := by simp
    unfold reach
    by_cases hdone : done.any (·.id == s.id) = true
    · rw [if_pos (listed.mpr hdone), postorder_of_done hdone]
    rw [if_neg (mt listed.mp hdone)]
    rcases (arena.suffix hsuffix).eq_or_mem hs with rfl | ⟨hid, hs'⟩
    · -- The inputs one after the other, whatever was reached before them.
      have inputs (ids : List StepId) (hids : ∀ id ∈ ids, id ∈ step.inputs) (done : List Step) :
          ids.foldlM (reach earlier) (done.map (·.id)) =
            .ok ((ids.foldl (postorder Step.inputs earlier) done).map (·.id)) := by
        induction ids generalizing done with
        | nil => rfl
        | cons id rest ih =>
          obtain ⟨u, hu, rfl⟩ :=
            (arena.suffix hsuffix).1.inputs id (hids id (List.mem_cons_self ..))
          rw [List.foldlM_cons, reach_eq arena earlier done u hearlier hu]
          exact ih (fun i hi => hids i (List.mem_cons_of_mem _ hi)) _
      rw [if_pos rfl, inputs step.inputs (fun _ hid => hid) done, postorder_self hdone,
        List.map_append]
      rfl
    · rw [if_neg hid, postorder_of_ne hid]
      exact reach_eq arena earlier done s hearlier hs'

end Pipeline

end RecordFlow
