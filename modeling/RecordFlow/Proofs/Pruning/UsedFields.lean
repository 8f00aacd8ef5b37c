import RecordFlow.Proofs.Pipeline.Paths
import RecordFlow.Proofs.Pruning.FieldSets
import RecordFlow.Pruning.UsedFields

/-! What is used of each record type, said by paths. The traversal goes through a pair of a step and
a flag once, whichever path came first; main statement: it still finds all that any path finds. -/

namespace RecordFlow

/-- A function of which nothing is known is applied to the records of the inputs. -/
def Step.IsOpaque (s : Step) : Prop := s.operation.appliesFunction = true ∧ s.usage = .unknown

/-- The function of the step declares the use of a field. -/
def Step.Declares (s : Step) (type field : String) : Prop :=
  s.operation.appliesFunction = true ∧
    ∃ sets, s.usage = .declared sets ∧ sets.lists type field = true

/-- The function of the step declares which fields of a record type it uses, be it none. -/
def Step.DeclaresFor (s : Step) (type : String) : Prop :=
  s.operation.appliesFunction = true ∧ ∃ sets, s.usage = .declared sets ∧ sets.mentions type = true

/-- Reads and limits never are, whatever their usage. -/
theorem Step.isOpaque_iff {s : Step} : s.IsOpaque ↔
    s.operation.kind ∈ ["Filter", "Map", "FlatMap", "Aggregate", "JoinLeft"] ∧
      s.usage = .unknown := by
  rw [IsOpaque, Operation.appliesFunction_iff]

theorem Step.declares_iff {s : Step} {type field : String} : s.Declares type field ↔
    s.operation.kind ∈ ["Filter", "Map", "FlatMap", "Aggregate", "JoinLeft"] ∧
      ∃ sets, s.usage = .declared sets ∧ sets.lists type field = true := by
  rw [Declares, Operation.appliesFunction_iff]

theorem Step.declaresFor_iff {s : Step} {type : String} : s.DeclaresFor type ↔
    s.operation.kind ∈ ["Filter", "Map", "FlatMap", "Aggregate", "JoinLeft"] ∧
      ∃ sets, s.usage = .declared sets ∧ sets.mentions type = true := by
  rw [DeclaresFor, Operation.appliesFunction_iff]

namespace UsedFields

variable {p : Pipeline}

/-- A step together with whether its records are collected. -/
abbrev Node := Step × Bool

/-- Where the traversal goes next. -/
def Leads (p : Pipeline) (a b : Node) : Prop :=
  (p.HasSource a.1 b.1 ∧ b.2 = (a.2 && a.1.operation.passesRecords)) ∨
    (p.HasJoined a.1 b.1 ∧ b.2 = a.2)

/-- A record type that going through a node adds to those used in full. -/
def Fills (p : Pipeline) (a : Node) (type : String) : Prop :=
  (a.2 = true ∧ a.1.seed.name = type) ∨
    (a.1.IsOpaque ∧ ∃ i, p.HasInput a.1 i ∧ i.seed.name = type)

/-- The traversal has gone through a node. -/
def Seen (p : Pipeline) (t : Traversal) (a : Node) : Prop :=
  a.1 ∈ p.steps ∧ (a.1.id, a.2) ∈ t.seen

/-- What was found is what the nodes gone through add. -/
structure Exact (p : Pipeline) (t : Traversal) : Prop where
  full : ∀ type, type ∈ t.found.unrestricted ↔ ∃ a, Seen p t a ∧ Fills p a type
  mentioned : ∀ type,
    (t.found.declared.find? type).isSome ↔ ∃ a, Seen p t a ∧ a.1.DeclaresFor type
  listed : ∀ type field,
    t.found.declared.Has type field ↔ ∃ a, Seen p t a ∧ a.1.Declares type field

/-! ### One node -/

theorem useInputs_spec {steps : List Step} {ids : List StepId} {u : UsedFields}
    (h : ∀ id ∈ ids, ∃ s, findStep id steps = some s) :
    ∃ v, useInputs steps u ids = .ok v ∧ v.declared = u.declared ∧
      ∀ type, type ∈ v.unrestricted ↔ type ∈ u.unrestricted ∨
        ∃ id ∈ ids, ∃ s, findStep id steps = some s ∧ s.seed.name = type := by
  induction ids generalizing u with
  | nil => exact ⟨u, rfl, rfl, by simp⟩
  | cons id rest ih =>
    obtain ⟨s, hs⟩ := h id (List.mem_cons_self ..)
    obtain ⟨v, hv, hd, hu⟩ := ih (u := u.useFully s.seed.name)
      fun i hi => h i (List.mem_cons_of_mem _ hi)
    refine ⟨v, ?_, hd, ?_⟩
    · simp only [useInputs, hs, hv]
    · intro type
      have head : type ∈ (u.useFully s.seed.name).unrestricted ↔
          type = s.seed.name ∨ type ∈ u.unrestricted := NameSet.mem_insert
      simp only [hu, head, List.mem_cons, exists_eq_or_imp, hs, Option.some.injEq,
        exists_eq_left']
      grind

/-- The inputs of a step among the steps below it are its inputs in the pipeline. -/
theorem hasInput_iff_findStep (arena : Arena p.steps) {s i : Step} {earlier : List Step}
    (hsuffix : s :: earlier <:+ p.steps) :
    p.HasInput s i ↔ ∃ id ∈ s.inputs, findStep id earlier = some i := by
  have below := arena.suffix hsuffix
  rw [Pipeline.hasInput_iff]
  constructor
  · intro input
    obtain ⟨hi, hid⟩ := input
    obtain ⟨j, hj, he⟩ := below.1.inputs _ hid
    have hij : j = i := arena.id_injective (hsuffix.subset (List.mem_cons_of_mem _ hj)) hi he
    subst hij
    exact ⟨j.id, hid, below.2.findStep_eq hj⟩
  · intro located
    obtain ⟨id, hid, hf⟩ := located
    obtain ⟨hi, rfl⟩ := mem_of_findStep hf
    exact ⟨hsuffix.subset (List.mem_cons_of_mem _ hi), hid⟩

theorem exists_seen_enter (arena : Arena p.steps) {t : Traversal} {s : Step} (hs : s ∈ p.steps)
    (direct : Bool) (found : UsedFields) (P : Node → Prop) :
    (∃ a, Seen p ⟨found, (s.id, direct) :: t.seen⟩ a ∧ P a) ↔
      P (s, direct) ∨ ∃ a, Seen p t a ∧ P a := by
  constructor
  · intro holds
    obtain ⟨a, ⟨ha, hseen⟩, hP⟩ := holds
    rcases List.mem_cons.mp hseen with he | hseen
    · obtain ⟨hid, hd⟩ := Prod.mk.inj he
      have : a = (s, direct) := Prod.ext (arena.id_injective ha hs hid) hd
      exact .inl (this ▸ hP)
    · exact .inr ⟨a, ⟨ha, hseen⟩, hP⟩
  · intro holds
    rcases holds with hP | ⟨a, ⟨ha, hseen⟩, hP⟩
    · exact ⟨(s, direct), ⟨hs, List.mem_cons_self ..⟩, hP⟩
    · exact ⟨a, ⟨ha, List.mem_cons_of_mem _ hseen⟩, hP⟩

/-- Going through a node keeps the found exact. -/
theorem Exact.enter (arena : Arena p.steps) {t : Traversal} {s : Step} {earlier : List Step}
    (direct : Bool) (hsuffix : s :: earlier <:+ p.steps) (h : Exact p t) :
    ∃ found,
      (if direct then t.found.useFully s.seed.name else t.found).useFunction earlier s = .ok found ∧
        Exact p ⟨found, (s.id, direct) :: t.seen⟩ := by
  have hs : s ∈ p.steps := hsuffix.subset (List.mem_cons_self ..)
  have below := arena.suffix hsuffix
  generalize hu : (if direct then t.found.useFully s.seed.name else t.found) = u
  have hdeclared : u.declared = t.found.declared := by
    subst hu
    split <;> rfl
  have hfull (type : String) : type ∈ u.unrestricted ↔
      (direct = true ∧ s.seed.name = type) ∨ type ∈ t.found.unrestricted := by
    subst hu
    cases direct with
    | false => simp
    | true =>
      have := @NameSet.mem_insert type s.seed.name t.found.unrestricted
      simpa [useFully, eq_comm] using this
  -- It is enough to say what the node itself adds.
  suffices key : ∃ found, u.useFunction earlier s = .ok found ∧
      (∀ type, type ∈ found.unrestricted ↔
        Fills p (s, direct) type ∨ type ∈ t.found.unrestricted) ∧
      (∀ type, (found.declared.find? type).isSome ↔
        s.DeclaresFor type ∨ (t.found.declared.find? type).isSome) ∧
      ∀ type field, found.declared.Has type field ↔
        s.Declares type field ∨ t.found.declared.Has type field by
    obtain ⟨found, hf, full, mentioned, listed⟩ := key
    refine ⟨found, hf, ⟨fun type => ?_, fun type => ?_, fun type field => ?_⟩⟩
    · rw [exists_seen_enter arena hs direct found fun a => Fills p a type, full, h.full]
    · rw [exists_seen_enter arena hs direct found fun a => a.1.DeclaresFor type, mentioned,
      h.mentioned]
    · rw [exists_seen_enter arena hs direct found fun a => a.1.Declares type field, listed,
      h.listed]
  unfold useFunction
  split
  · next applies =>
    split
    · next sets husage =>
      have notOpaque : ¬ s.IsOpaque := by
        rintro ⟨-, hunknown⟩
        rw [husage] at hunknown
        cases hunknown
      refine ⟨_, rfl, fun type => ?_, fun type => ?_, fun type field => ?_⟩
      · simp [hfull, Fills, notOpaque]
      · simp [hdeclared, FieldSets.isSome_find?_union, Step.DeclaresFor, applies, husage]
      · simp [hdeclared, FieldSets.has_union, Step.Declares, applies, husage]
    · next husage =>
      have inputs : ∀ id ∈ s.inputs, ∃ i, findStep id earlier = some i := by
        intro id hid
        obtain ⟨i, hi, rfl⟩ := below.1.inputs id hid
        exact ⟨i, below.2.findStep_eq hi⟩
      obtain ⟨v, hv, hd, hu'⟩ := useInputs_spec (u := u) inputs
      refine ⟨v, hv, fun type => ?_, fun type => ?_, fun type field => ?_⟩
      · have here : (∃ i, p.HasInput s i ∧ i.seed.name = type) ↔
            ∃ id ∈ s.inputs, ∃ i, findStep id earlier = some i ∧ i.seed.name = type := by
          simp only [hasInput_iff_findStep arena hsuffix]
          constructor
          · intro named
            obtain ⟨i, ⟨id, hid, hf⟩, hn⟩ := named
            exact ⟨id, hid, i, hf, hn⟩
          · intro named
            obtain ⟨id, hid, i, hf, hn⟩ := named
            exact ⟨i, ⟨id, hid, hf⟩, hn⟩
        have isOpaque : s.IsOpaque := ⟨applies, husage⟩
        simp only [hu', hfull, Fills, here, isOpaque, true_and]
        exact or_right_comm
      · simp [hd, hdeclared, Step.DeclaresFor, husage]
      · simp [hd, hdeclared, Step.Declares, husage]
  · next idle =>
    have notOpaque : ¬ s.IsOpaque := fun ho => idle ho.1
    refine ⟨u, rfl, fun type => ?_, fun type => ?_, fun type field => ?_⟩
    · simp [hfull, Fills, notOpaque]
    · simp [hdeclared, Step.DeclaresFor, idle]
    · simp [hdeclared, Step.Declares, idle]

/-! ### The whole traversal -/

/-- From one state of the traversal to a later one: all `roots` are gone through, whatever is new
comes from a root, and of whatever is new the traversal has gone on everywhere. -/
structure Extends (p : Pipeline) (roots : Node → Prop) (t t' : Traversal) : Prop where
  keeps : ∀ a, Seen p t a → Seen p t' a
  entered : ∀ a, roots a → Seen p t' a
  reached : ∀ b, Seen p t' b → Seen p t b ∨ ∃ a, roots a ∧ Relation.ReflTransGen (Leads p) a b
  closed : ∀ a b, Seen p t' a → ¬ Seen p t a → Leads p a b → Seen p t' b

theorem Extends.refl (t : Traversal) : Extends p (fun _ => False) t t :=
  ⟨fun _ h => h, fun _ h => h.elim, fun _ h => .inl h, fun _ _ h hn => absurd h hn⟩

theorem Extends.trans {R S : Node → Prop} {t u v : Traversal} (h : Extends p R t u)
    (k : Extends p S u v) : Extends p (fun a => R a ∨ S a) t v := by
  refine ⟨fun a ha => k.keeps a (h.keeps a ha), ?_, ?_, ?_⟩
  · intro a ha
    rcases ha with ha | ha
    · exact k.keeps a (h.entered a ha)
    · exact k.entered a ha
  · intro b hb
    rcases k.reached b hb with hb | ⟨a, ha, path⟩
    · rcases h.reached b hb with hb | ⟨a, ha, path⟩
      · exact .inl hb
      · exact .inr ⟨a, .inl ha, path⟩
    · exact .inr ⟨a, .inr ha, path⟩
  · intro a b ha hn hab
    by_cases hu : Seen p u a
    · exact k.keeps b (h.closed a b hu hn hab)
    · exact k.closed a b ha hu hab

/-- Going through a node and then on from it. -/
theorem Extends.enter (arena : Arena p.steps) {t t' : Traversal} {s : Step} {direct : Bool}
    {found : UsedFields} (hs : s ∈ p.steps)
    (h : Extends p (Leads p (s, direct)) ⟨found, (s.id, direct) :: t.seen⟩ t') :
    Extends p (· = (s, direct)) t t' := by
  have split (a : Node) : Seen p ⟨found, (s.id, direct) :: t.seen⟩ a ↔
      a = (s, direct) ∨ Seen p t a := by
    have := exists_seen_enter arena (t := t) hs direct found (· = a)
    simpa [eq_comm] using this
  have entered : Seen p t' (s, direct) := h.keeps _ ((split _).mpr (.inl rfl))
  refine ⟨fun a ha => h.keeps a ((split a).mpr (.inr ha)), ?_, ?_, ?_⟩
  · rintro a rfl
    exact entered
  · intro b hb
    rcases h.reached b hb with hb | ⟨a, ha, path⟩
    · rcases (split b).mp hb with rfl | hb
      · exact .inr ⟨_, rfl, .refl⟩
      · exact .inl hb
    · exact .inr ⟨_, rfl, .head ha path⟩
  · intro a b ha hn hab
    by_cases he : a = (s, direct)
    · subst he
      exact h.entered b hab
    · refine h.closed a b ha (fun hseen => ?_) hab
      rcases (split a).mp hseen with rfl | hseen
      · exact he rfl
      · exact hn hseen

/-- The nodes of some steps, all with the same flag. -/
def Roots (p : Pipeline) (ids : List StepId) (direct : Bool) (a : Node) : Prop :=
  a.1 ∈ p.steps ∧ a.1.id ∈ ids ∧ a.2 = direct

theorem foldlM_visit (arena : Arena p.steps) {earlier : List Step} {direct : Bool}
    (visited : ∀ t s, s ∈ earlier → Exact p t → ∃ t',
      visit earlier t s.id direct = .ok t' ∧ Exact p t' ∧ Extends p (· = (s, direct)) t t')
    (hmem : ∀ s ∈ earlier, s ∈ p.steps) (ids : List StepId)
    (hids : ∀ id ∈ ids, ∃ s ∈ earlier, s.id = id) {t : Traversal} (h : Exact p t) :
    ∃ t', ids.foldlM (fun t id => visit earlier t id direct) t = .ok t' ∧ Exact p t' ∧
      Extends p (Roots p ids direct) t t' := by
  induction ids generalizing t with
  | nil =>
    refine ⟨t, rfl, h, ?_⟩
    have roots : Roots p [] direct = fun _ => False := by
      funext a
      simp [Roots]
    rw [roots]
    exact .refl t
  | cons id rest ih =>
    obtain ⟨s, hs, rfl⟩ := hids id (List.mem_cons_self ..)
    obtain ⟨u, hu, exact, ext⟩ := visited t s hs h
    obtain ⟨v, hv, exact', ext'⟩ := ih (fun i hi => hids i (List.mem_cons_of_mem _ hi)) exact
    refine ⟨v, ?_, exact', ?_⟩
    · simp [List.foldlM_cons, hu, hv, bind, Except.bind]
    · have roots : Roots p (s.id :: rest) direct =
          fun a => a = (s, direct) ∨ Roots p rest direct a := by
        funext a
        refine propext ⟨?_, ?_⟩
        · intro root
          obtain ⟨ha, hid, hd⟩ := root
          rcases List.mem_cons.mp hid with hid | hid
          · exact .inl (Prod.ext (arena.id_injective ha (hmem s hs) hid) hd)
          · exact .inr ⟨ha, hid, hd⟩
        · intro root
          rcases root with rfl | ⟨ha, hid, hd⟩
          · exact ⟨hmem s hs, List.mem_cons_self .., rfl⟩
          · exact ⟨ha, List.mem_cons_of_mem _ hid, hd⟩
      rw [roots]
      exact ext.trans ext'

theorem leads_eq (s : Step) (direct : Bool) :
    Leads p (s, direct) = fun a =>
      Roots p s.source?.toList (direct && s.operation.passesRecords) a ∨
        Roots p (s.joins.flatMap (·.sources)) direct a := by
  funext a
  simp only [Leads, Roots, Pipeline.HasSource, Pipeline.HasJoined, Option.mem_toList,
    List.mem_flatMap, and_assoc]

/-- The traversal succeeds, and extends what was gone through by the nodes from its start on. -/
theorem visit_spec (arena : Arena p.steps) :
    ∀ (steps : List Step) (t : Traversal) (s : Step) (direct : Bool), steps <:+ p.steps →
      s ∈ steps → Exact p t → ∃ t', visit steps t s.id direct = .ok t' ∧ Exact p t' ∧
        Extends p (· = (s, direct)) t t'
  | [], _, _, _, _, hs, _ => by cases hs
  | step :: earlier, t, s, direct, hsuffix, hs, h => by
    have hearlier : earlier <:+ p.steps := (List.suffix_cons _ _).trans hsuffix
    unfold visit
    by_cases hseen : (s.id, direct) ∈ t.seen
    · rw [if_pos hseen]
      refine ⟨t, rfl, h, fun _ ha => ha, ?_, fun _ ha => .inl ha, fun _ _ ha hn => absurd ha hn⟩
      rintro a rfl
      exact ⟨hsuffix.subset hs, hseen⟩
    rw [if_neg hseen]
    rcases (arena.suffix hsuffix).eq_or_mem hs with rfl | ⟨hid, hs'⟩
    · rw [if_pos rfl]
      obtain ⟨found, hfound, exact⟩ := h.enter arena direct hsuffix
      have visited (d : Bool) : ∀ t s, s ∈ earlier → Exact p t → ∃ t',
          visit earlier t s.id d = .ok t' ∧ Exact p t' ∧ Extends p (· = (s, d)) t t' :=
        fun t s hs => visit_spec arena earlier t s d hearlier hs
      have inputs := (arena.suffix hsuffix).1.inputs
      obtain ⟨u, hu, exactU, extU⟩ := foldlM_visit arena
        (visited (direct && step.operation.passesRecords)) (fun _ hm => hearlier.subset hm)
        step.source?.toList (fun id hm => inputs id (List.mem_append_left _ hm)) exact
      obtain ⟨v, hv, exactV, extV⟩ := foldlM_visit arena (visited direct)
        (fun _ hm => hearlier.subset hm) (step.joins.flatMap (·.sources))
        (fun id hm => inputs id (List.mem_append_right _ hm)) exactU
      refine ⟨v, ?_, exactV, ?_⟩
      · simp only [hfound, bind, Except.bind]
        cases hsource : step.source? with
        | none =>
          rw [hsource] at hu
          cases hu
          exact hv
        | some source =>
          rw [hsource, Option.toList_some, List.foldlM_cons] at hu
          simp only [List.foldlM_nil, bind_pure] at hu
          simp only [hu]
          exact hv
      · have ext := extU.trans extV
        rw [← leads_eq] at ext
        exact ext.enter arena (hsuffix.subset (List.mem_cons_self ..))
    · rw [if_neg hid]
      exact visit_spec arena earlier t s direct hearlier hs' h

/-! ### Paths -/

theorem Leads.hasInput {a b : Node} (h : Leads p a b) : p.HasInput a.1 b.1 :=
  h.imp And.left And.left

theorem exists_leads_iff {a : Node} {s : Step} :
    (∃ direct, Relation.ReflTransGen (Leads p) a (s, direct)) ↔ p.Reaches a.1 s := by
  constructor
  · intro leads
    obtain ⟨direct, path⟩ := leads
    exact path.lift Prod.fst fun _ _ h => h.hasInput
  · intro path
    induction path with
    | refl => exact ⟨a.2, .refl⟩
    | tail _ last ih =>
      obtain ⟨direct, path⟩ := ih
      rcases last with source | joined
      · exact ⟨_, path.tail (.inl ⟨source, rfl⟩)⟩
      · exact ⟨_, path.tail (.inr ⟨joined, rfl⟩)⟩

/-- Records are collected of the steps that the followed edges lead to. -/
theorem leads_direct_iff {t s : Step} :
    Relation.ReflTransGen (Leads p) (t, true) (s, true) ↔
      Relation.ReflTransGen p.Collects t s := by
  constructor
  · intro path
    -- The flag is never set again once it is lost, so it is set all along the path.
    suffices general : ∀ b : Node, Relation.ReflTransGen (Leads p) (t, true) b → b.2 = true →
        Relation.ReflTransGen p.Collects t b.1 from general _ path rfl
    intro b path
    induction path with
    | refl => exact fun _ => .refl
    | tail _ last ih =>
      intro hb
      rcases last with ⟨source, he⟩ | ⟨joined, he⟩
      · rw [hb, eq_comm, Bool.and_eq_true] at he
        exact (ih he.1).tail (.inl ⟨source, he.2⟩)
      · rw [hb] at he
        exact (ih he.symm).tail (.inr joined)
  · intro path
    refine path.lift (fun s => (s, true)) fun a b h => ?_
    rcases h with ⟨source, passes⟩ | joined
    · exact .inl ⟨source, by simp [passes]⟩
    · exact .inr ⟨joined, rfl⟩

open Classical in
/-- What is used, told by the paths that lead from a target to its inputs. -/
structure FollowsPaths (p : Pipeline) (t : Step) (u : UsedFields) : Prop where
  unrestricted : ∀ name, u.isUnrestricted name = true ↔
    (∃ s, Relation.ReflTransGen p.Collects t s ∧ s.seed.name = name) ∨
      ∃ s i, p.Reaches t s ∧ s.IsOpaque ∧ p.HasInput s i ∧ i.seed.name = name
  unlimited : ∀ type, u.fieldsOf? type = none ↔
    u.isUnrestricted type.name = true ∨ ¬ ∃ s, p.Reaches t s ∧ s.DeclaresFor type.name
  limited : ∀ type fields, u.fieldsOf? type = some fields →
    fields = type.fieldNames.filter fun field => ∃ s, p.Reaches t s ∧ s.Declares type.name field

theorem fieldsOf?_eq_none {u : UsedFields} {type : RecordType} :
    u.fieldsOf? type = none ↔
      u.isUnrestricted type.name = true ∨ u.declared.find? type.name = none := by
  unfold fieldsOf?
  by_cases h : u.isUnrestricted type.name = true
  · rw [if_pos h]
    simp [h]
  · rw [if_neg h]
    simp [h]

theorem fieldsOf?_eq_some {u : UsedFields} {type : RecordType} {fields : List String} :
    u.fieldsOf? type = some fields ↔ u.isUnrestricted type.name = false ∧
      ∃ set, u.declared.find? type.name = some set ∧
        fields = type.fieldNames.filter (· ∈ set) := by
  unfold fieldsOf?
  by_cases h : u.isUnrestricted type.name = true
  · rw [if_pos h]
    simp [h]
  · rw [if_neg h, Option.map_eq_some_iff]
    simp [h, eq_comm (a := fields)]

/-- An exact traversal of all that is reached from a target tells what its paths tell. -/
theorem Exact.followsPaths {t : Step} {r : Traversal} (h : Exact p r)
    (reached : ∀ a, Seen p r a ↔ Relation.ReflTransGen (Leads p) (t, true) a) :
    r.found.FollowsPaths p t := by
  have passing (P : Step → Prop) :
      (∃ a, Seen p r a ∧ P a.1) ↔ ∃ s, p.Reaches t s ∧ P s := by
    constructor
    · intro seen
      obtain ⟨⟨s, direct⟩, hseen, hP⟩ := seen
      exact ⟨s, exists_leads_iff.mp ⟨direct, (reached _).mp hseen⟩, hP⟩
    · intro reaches
      obtain ⟨s, path, hP⟩ := reaches
      obtain ⟨direct, path⟩ := (exists_leads_iff (a := (t, true))).mpr path
      exact ⟨(s, direct), (reached _).mpr path, hP⟩
  have mentioned (type : String) : r.found.declared.find? type = none ↔
      ¬ ∃ s, p.Reaches t s ∧ s.DeclaresFor type := by
    rw [← Option.not_isSome_iff_eq_none, h.mentioned, passing fun s => s.DeclaresFor type]
  refine ⟨fun name => ?_, fun type => ?_, fun type fields hf => ?_⟩
  · have full : r.found.isUnrestricted name = true ↔ name ∈ r.found.unrestricted :=
      decide_eq_true_iff
    rw [full, h.full]
    simp only [Fills, and_or_left, exists_or]
    refine or_congr ?_ ?_
    · constructor
      · intro seen
        obtain ⟨⟨s, direct⟩, hseen, hd, hn⟩ := seen
        cases hd
        exact ⟨s, leads_direct_iff.mp ((reached _).mp hseen), hn⟩
      · intro reaches
        obtain ⟨s, path, hn⟩ := reaches
        exact ⟨(s, true), (reached _).mpr (leads_direct_iff.mpr path), rfl, hn⟩
    · rw [passing fun s => s.IsOpaque ∧ ∃ i, p.HasInput s i ∧ i.seed.name = name]
      simp only [← exists_and_left]
  · rw [fieldsOf?_eq_none, mentioned]
  · obtain ⟨-, set, hset, rfl⟩ := fieldsOf?_eq_some.mp hf
    refine List.filter_congr fun field _ => decide_eq_decide.mpr ?_
    rw [← passing fun s => s.Declares type.name field, ← h.listed]
    simp [FieldSets.Has, hset]

theorem collect_spec (arena : Arena p.steps) {t : Step} (ht : t ∈ p.steps) :
    ∃ u, collect p t.id = .ok u ∧ u.FollowsPaths p t := by
  have unseen (a : Node) : ¬ Seen p ⟨.empty, []⟩ a := by
    rintro ⟨-, h⟩
    cases h
  have start : Exact p ⟨.empty, []⟩ := by
    refine ⟨fun type => ?_, fun type => ?_, fun type field => ?_⟩ <;>
      simp only [unseen, false_and, exists_false, iff_false]
    · exact FieldSets.not_mem_empty
    · simp [empty, FieldSets.empty, FieldSets.find?]
    · simp [empty, FieldSets.empty, FieldSets.Has, FieldSets.find?]
  obtain ⟨r, hr, exact, ext⟩ := visit_spec arena p.steps _ t true List.suffix_rfl ht start
  refine ⟨r.found, by simp [collect, hr, bind, Except.bind, pure, Except.pure],
    exact.followsPaths fun a => ⟨fun ha => ?_, fun path => ?_⟩⟩
  · rcases ext.reached a ha with h | ⟨b, rfl, path⟩
    · exact absurd h (unseen a)
    · exact path
  · induction path with
    | refl => exact ext.entered _ rfl
    | tail _ last ih => exact ext.closed _ _ ih (unseen _) last

/-- The traversal finds just what the paths tell, in every pipeline and for every target. -/
theorem collect_followsPaths (built : p.Built) {t : Step} (ht : t ∈ p.steps) :
    ∃ u, collect p t.id = .ok u ∧ u.FollowsPaths p t :=
  collect_spec built.arena ht

def item : RecordType := ⟨"item", [⟨"id", .int64, false⟩, ⟨"tag", .string, true⟩]⟩

def row : RecordType := ⟨"row", [⟨"id", .int64, false⟩]⟩

def readItems : Step := ⟨⟨1⟩, item, item.schema, .unknown, .readCsv "items"⟩

/-- Makes rows of the ids of items. -/
def itemIds : Step :=
  ⟨⟨2⟩, row, row.schema, FieldUsage.nothing.and item ["id"],
    .map ⟨1⟩ fun r => ⟨[("id", r.value "id")]⟩⟩

def itemPipeline : Pipeline := ⟨[itemIds, readItems]⟩

theorem itemPipeline_built : itemPipeline.Built := by
  have first : Pipeline.Built ⟨[readItems]⟩ :=
    @Pipeline.Built.push _ ⟨1⟩ (.readCsv (.struct item) "items") _ .empty (by simp) rfl
  exact @Pipeline.Built.push _ ⟨2⟩ (.map ⟨1⟩ (.struct row) _ _) _ first (by simp [readItems]) rfl

theorem itemIds_followsPaths : itemPipeline.Built ∧ itemIds ∈ itemPipeline.steps ∧
    ∃ u, collect itemPipeline itemIds.id = .ok u ∧ u.FollowsPaths itemPipeline itemIds :=
  ⟨itemPipeline_built, List.mem_cons_self ..,
    collect_followsPaths itemPipeline_built (List.mem_cons_self ..)⟩

/-- Only the id of an item is used, and rows are used in full. -/
example : (collect itemPipeline ⟨2⟩).map (fun u => (u.fieldsOf? item, u.fieldsOf? row)) =
    .ok (some ["id"], none) := rfl

end UsedFields

end RecordFlow
