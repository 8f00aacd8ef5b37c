import Mathlib.Logic.Basic
import RecordFlow.Proofs.Pruning.UsedFields

/-! What becomes of the use of fields when one step declares more of it. The graph is the same and
so are the paths along which use is found; main statement: whatever was declared still is, and a
record type stays used in full unless it was so only because nothing was known of what the function
of that step reads. -/

namespace RecordFlow

/-- The step with another use of fields. -/
def Step.withUsage (usage : Step → FieldUsage) (s : Step) : Step := { s with usage := usage s }

/-- The use of fields of a step, more being declared of it if it is the step of an id. -/
def Step.moreUsage (id : StepId) (type : RecordType) (fields : List String) (s : Step) :
    FieldUsage :=
  if s.id = id then s.usage.and type fields else s.usage

namespace Pipeline

def withUsage (p : Pipeline) (usage : Step → FieldUsage) : Pipeline :=
  ⟨p.steps.map (·.withUsage usage)⟩

/-- The pipeline in which the function of one step declares more fields of a record type. -/
def declareMore (p : Pipeline) (id : StepId) (type : RecordType) (fields : List String) :
    Pipeline :=
  p.withUsage (Step.moreUsage id type fields)

/-- A step that the step of an id depends on declares the use of a field. -/
def DeclaresBelow (p : Pipeline) (id : StepId) (type field : String) : Prop :=
  ∃ t ∈ p.steps, t.id = id ∧ ∃ s, p.Reaches t s ∧ s.Declares type field

end Pipeline

/-! ### The graph -/

section

variable {p : Pipeline} (usage : Step → FieldUsage)

theorem Arena.withUsage {steps : List Step} (arena : Arena steps) :
    Arena (steps.map (·.withUsage usage)) := by
  induction steps with
  | nil => trivial
  | cons s earlier ih =>
    obtain ⟨fits, rest⟩ := arena
    refine ⟨⟨?_, fits.checked, fits.derived, ?_, fits.single, ?_⟩, ih rest⟩
    · exact List.forall_mem_map.mpr fits.above
    · intro id hid
      obtain ⟨i, hi, he⟩ := fits.inputs id hid
      exact ⟨_, List.mem_map_of_mem hi, he⟩
    · intro id hid
      obtain ⟨i, hi, he⟩ := fits.passed id hid
      exact ⟨_, List.mem_map_of_mem hi, he⟩

namespace Pipeline

theorem hasSource_withUsage {s b : Step} :
    (p.withUsage usage).HasSource (s.withUsage usage) b ↔
      ∃ i, p.HasSource s i ∧ i.withUsage usage = b := by
  constructor
  · rintro ⟨hb, source⟩
    obtain ⟨i, hi, rfl⟩ := List.mem_map.mp hb
    exact ⟨i, ⟨hi, source⟩, rfl⟩
  · rintro ⟨i, ⟨hi, source⟩, rfl⟩
    exact ⟨List.mem_map_of_mem hi, source⟩

theorem hasJoined_withUsage {s b : Step} :
    (p.withUsage usage).HasJoined (s.withUsage usage) b ↔
      ∃ i, p.HasJoined s i ∧ i.withUsage usage = b := by
  constructor
  · rintro ⟨hb, joined⟩
    obtain ⟨i, hi, rfl⟩ := List.mem_map.mp hb
    exact ⟨i, ⟨hi, joined⟩, rfl⟩
  · rintro ⟨i, ⟨hi, joined⟩, rfl⟩
    exact ⟨List.mem_map_of_mem hi, joined⟩

theorem hasInput_withUsage {s b : Step} :
    (p.withUsage usage).HasInput (s.withUsage usage) b ↔
      ∃ i, p.HasInput s i ∧ i.withUsage usage = b := by
  simp only [HasInput, hasSource_withUsage, hasJoined_withUsage, or_and_right, exists_or]

theorem collects_withUsage {s b : Step} :
    (p.withUsage usage).Collects (s.withUsage usage) b ↔
      ∃ i, p.Collects s i ∧ i.withUsage usage = b := by
  have passes : (s.withUsage usage).operation.passesRecords = s.operation.passesRecords := rfl
  simp only [Collects, hasSource_withUsage, hasJoined_withUsage, passes, or_and_right, exists_or,
    ← exists_and_right, and_right_comm]

end Pipeline

/-- Paths from an image are the images of paths, if edges are. -/
theorem reflTransGen_image_iff {α β : Type} {r : α → α → Prop} {r' : β → β → Prop} {f : α → β}
    (edges : ∀ a b, r' (f a) b ↔ ∃ c, r a c ∧ f c = b) {a : α} {b : β} :
    Relation.ReflTransGen r' (f a) b ↔ ∃ c, Relation.ReflTransGen r a c ∧ f c = b := by
  constructor
  · intro path
    induction path with
    | refl => exact ⟨a, .refl, rfl⟩
    | tail _ last ih =>
      obtain ⟨c, path, rfl⟩ := ih
      obtain ⟨d, edge, rfl⟩ := (edges c _).mp last
      exact ⟨d, path.tail edge, rfl⟩
  · rintro ⟨c, path, rfl⟩
    exact path.lift f fun c d edge => (edges c (f d)).mpr ⟨d, edge, rfl⟩

theorem Pipeline.reaches_withUsage {t b : Step} :
    (p.withUsage usage).Reaches (t.withUsage usage) b ↔
      ∃ s, p.Reaches t s ∧ s.withUsage usage = b :=
  reflTransGen_image_iff fun _ _ => hasInput_withUsage usage

end

/-! ### One step -/

section

variable (id : StepId) (type : RecordType) (fields : List String)

theorem FieldUsage.exists_and_eq (u : FieldUsage) : ∃ sets, u.and type fields = .declared sets ∧
    (∀ name, sets.mentions name = true ↔
      (∃ before, u = .declared before ∧ before.mentions name = true) ∨ name = type.name) ∧
    ∀ name field, sets.lists name field = true ↔
      (∃ before, u = .declared before ∧ before.lists name field = true) ∨
        name = type.name ∧ field ∈ fields := by
  cases u with
  | unknown =>
    refine ⟨_, rfl, fun name => ?_, fun name field => ?_⟩
    · have nothing : FieldSets.empty.mentions name = false := rfl
      simp [FieldSets.mentions_add, nothing]
    · have nothing : FieldSets.empty.lists name field = false := rfl
      simp [FieldSets.lists_add, nothing]
  | declared before =>
    refine ⟨_, rfl, fun name => ?_, fun name field => ?_⟩
    · simp [FieldSets.mentions_add, or_comm]
    · simp [FieldSets.lists_add, or_comm]

namespace Step

variable {s : Step}

theorem isOpaque_moreUsage :
    (s.withUsage (moreUsage id type fields)).IsOpaque ↔ s.IsOpaque ∧ s.id ≠ id := by
  obtain ⟨sets, known, -⟩ := s.usage.exists_and_eq type fields
  by_cases h : s.id = id <;> simp [IsOpaque, withUsage, moreUsage, h, known]

theorem declaresFor_moreUsage {name : String} :
    (s.withUsage (moreUsage id type fields)).DeclaresFor name ↔ s.DeclaresFor name ∨
      (s.id = id ∧ s.operation.appliesFunction = true ∧ name = type.name) := by
  obtain ⟨sets, known, mentions, -⟩ := s.usage.exists_and_eq type fields
  by_cases h : s.id = id <;>
    simp [DeclaresFor, withUsage, moreUsage, h, known, mentions, and_or_left]

theorem declares_moreUsage {name field : String} :
    (s.withUsage (moreUsage id type fields)).Declares name field ↔ s.Declares name field ∨
      (s.id = id ∧ s.operation.appliesFunction = true ∧ name = type.name ∧ field ∈ fields) := by
  obtain ⟨sets, known, -, lists⟩ := s.usage.exists_and_eq type fields
  by_cases h : s.id = id <;>
    simp [Declares, withUsage, moreUsage, h, known, lists, and_or_left]

end Step

end

/-! ### The whole pipeline -/

namespace UsedFields

variable {p : Pipeline} {s t : Step} {type : RecordType} {fields : List String}

/-- What is used from a target on before and after a step declares more fields of a record type. -/
structure DeclaredMore (p : Pipeline) (t s : Step) (type : RecordType) (fields : List String)
    (before after : UsedFields) : Prop where
  /-- What is no longer used in full is read by the step alone, its use having been unknown. -/
  unrestricted : ∀ name, before.isUnrestricted name = true ↔ after.isUnrestricted name = true ∨
    (p.Reaches t s ∧ s.IsOpaque ∧ ∃ i, p.HasInput s i ∧ i.seed.name = name)
  declares : ∀ name field,
    (p.declareMore s.id type fields).DeclaresBelow t.id name field ↔
      p.DeclaresBelow t.id name field ∨ (p.Reaches t s ∧
        s.operation.appliesFunction = true ∧ name = type.name ∧ field ∈ fields)
  /-- Where reads are narrowed, they are narrowed to no fewer fields. -/
  limited : ∀ record few, before.fieldsOf? record = some few →
    ∃ more, after.fieldsOf? record = some more ∧ ∀ x ∈ few, x ∈ more

theorem FollowsPaths.unrestricted_withUsage {usage : Step → FieldUsage} {u : UsedFields}
    (follows : u.FollowsPaths (p.withUsage usage) (t.withUsage usage)) (name : String) :
    u.isUnrestricted name = true ↔
      (∃ i, Relation.ReflTransGen p.Collects t i ∧ i.seed.name = name) ∨
        ∃ j, p.Reaches t j ∧ (j.withUsage usage).IsOpaque ∧
          ∃ i, p.HasInput j i ∧ i.seed.name = name := by
  have collected {b : Step} : Relation.ReflTransGen (p.withUsage usage).Collects
      (t.withUsage usage) b ↔ ∃ i, Relation.ReflTransGen p.Collects t i ∧ i.withUsage usage = b :=
    reflTransGen_image_iff fun _ _ => Pipeline.collects_withUsage usage
  simp only [follows.unrestricted, collected, exists_and_left, Pipeline.reaches_withUsage,
    Pipeline.hasInput_withUsage, exists_exists_and_eq_and]
  rfl

/-- Of the steps reached, more declare what `P` says only if the one that declares more does. -/
theorem exists_reaches_declareMore (arena : Arena p.steps) (ht : t ∈ p.steps) (hs : s ∈ p.steps)
    {P Q : Step → Prop}
    (more : ∀ i, P (i.withUsage (Step.moreUsage s.id type fields)) ↔ P i ∨ (i.id = s.id ∧ Q i)) :
    (∃ i, (p.declareMore s.id type fields).Reaches
        (t.withUsage (Step.moreUsage s.id type fields)) i ∧ P i) ↔
      (∃ i, p.Reaches t i ∧ P i) ∨ (p.Reaches t s ∧ Q s) := by
  simp only [Pipeline.declareMore, Pipeline.reaches_withUsage, exists_exists_and_eq_and, more,
    and_or_left, exists_or]
  refine or_congr_right ⟨?_, fun ⟨path, h⟩ => ⟨s, path, rfl, h⟩⟩
  rintro ⟨i, path, same, h⟩
  obtain rfl := arena.id_injective (path.mem ht) hs same
  exact ⟨path, h⟩

theorem declaresBelow_iff (arena : Arena p.steps) (ht : t ∈ p.steps) {name field : String} :
    p.DeclaresBelow t.id name field ↔ ∃ i, p.Reaches t i ∧ i.Declares name field := by
  constructor
  · rintro ⟨b, hb, same, h⟩
    obtain rfl := arena.id_injective hb ht same
    exact h
  · exact fun h => ⟨t, ht, rfl, h⟩

/-- Of the record types used in full, those are no longer that only the step reads without saying
what. -/
theorem FollowsPaths.unrestricted_declareMore (arena : Arena p.steps) (ht : t ∈ p.steps)
    (hs : s ∈ p.steps) {before after : UsedFields} (follows : before.FollowsPaths p t)
    (follows' : after.FollowsPaths (p.declareMore s.id type fields)
      (t.withUsage (Step.moreUsage s.id type fields))) (name : String) :
    before.isUnrestricted name = true ↔ after.isUnrestricted name = true ∨
      (p.Reaches t s ∧ s.IsOpaque ∧ ∃ i, p.HasInput s i ∧ i.seed.name = name) := by
  rw [follows.unrestricted, follows'.unrestricted_withUsage, or_assoc]
  -- Collected records are the same, so only the steps of unknown use count, and of these only the
  -- one that declares more is none any longer.
  refine or_congr_right ⟨?_, ?_⟩
  · rintro ⟨j, i, path, silent, input, named⟩
    by_cases same : j.id = s.id
    · obtain rfl := arena.id_injective (path.mem ht) hs same
      exact .inr ⟨path, silent, i, input, named⟩
    · have still := (Step.isOpaque_moreUsage s.id type fields).mpr ⟨silent, same⟩
      exact .inl ⟨j, path, still, i, input, named⟩
  · rintro (⟨j, path, still, i, input, named⟩ | ⟨path, silent, i, input, named⟩)
    · have silent := ((Step.isOpaque_moreUsage s.id type fields).mp still).1
      exact ⟨j, i, path, silent, input, named⟩
    · exact ⟨s, i, path, silent, input, named⟩

/-- A step that declares more makes no more be used in full and no less be declared. -/
theorem collect_declareMore (built : p.Built) (ht : t ∈ p.steps) (hs : s ∈ p.steps)
    (type : RecordType) (fields : List String) :
    ∃ before after, collect p t.id = .ok before ∧
      collect (p.declareMore s.id type fields) t.id = .ok after ∧
      DeclaredMore p t s type fields before after := by
  have arena := built.arena
  have arena' : Arena (p.declareMore s.id type fields).steps := arena.withUsage _
  have ht' : t.withUsage (Step.moreUsage s.id type fields) ∈
      (p.declareMore s.id type fields).steps := List.mem_map_of_mem ht
  obtain ⟨before, hbefore, follows⟩ := collect_spec arena ht
  obtain ⟨after, hafter, follows'⟩ := collect_spec arena' ht'
  have unrestricted := follows.unrestricted_declareMore arena ht hs follows'
  have declares (name field : String) := exists_reaches_declareMore arena ht hs
    (P := fun i => i.Declares name field) fun _ => Step.declares_moreUsage s.id type fields
  have mentions (name : String) := exists_reaches_declareMore arena ht hs
    (P := fun i => i.DeclaresFor name) fun _ => Step.declaresFor_moreUsage s.id type fields
  refine ⟨before, after, hbefore, hafter, unrestricted, fun name field => ?_,
    fun record few hfew => ?_⟩
  · rw [declaresBelow_iff arena ht, ← declares]
    exact declaresBelow_iff arena' ht'
  · have limited : after.fieldsOf? record ≠ none := by
      have narrowed : before.fieldsOf? record ≠ none := by simp [hfew]
      rw [ne_eq, follows.unlimited, not_or, not_not] at narrowed
      rw [ne_eq, follows'.unlimited, not_or, not_not, mentions]
      exact ⟨fun full => narrowed.1 ((unrestricted _).mpr (.inl full)), .inl narrowed.2⟩
    obtain ⟨more, hmore⟩ := Option.ne_none_iff_exists'.mp limited
    refine ⟨more, hmore, fun x hx => ?_⟩
    simp only [follows.limited record few hfew, List.mem_filter, decide_eq_true_eq] at hx
    simp only [follows'.limited record more hmore, List.mem_filter, decide_eq_true_eq]
    exact ⟨hx.1, (declares record.name x).mpr (.inl hx.2)⟩

theorem itemIds_declareMore : itemPipeline.Built ∧ itemIds ∈ itemPipeline.steps ∧
    ∃ before after, collect itemPipeline itemIds.id = .ok before ∧
      collect (itemPipeline.declareMore itemIds.id item ["tag"]) itemIds.id = .ok after ∧
      DeclaredMore itemPipeline itemIds itemIds item ["tag"] before after :=
  ⟨itemPipeline_built, List.mem_cons_self ..,
    collect_declareMore itemPipeline_built (List.mem_cons_self ..) (List.mem_cons_self ..) item
      ["tag"]⟩

/-- Makes rows of the ids of items without saying what it reads. -/
def silentIds : Step := { itemIds with usage := .unknown }

def silentPipeline : Pipeline := ⟨[silentIds, readItems]⟩

theorem silentPipeline_built : silentPipeline.Built := by
  have first : Pipeline.Built ⟨[readItems]⟩ :=
    @Pipeline.Built.push _ ⟨1⟩ (.readCsv (.struct item) "items") _ .empty (by simp) rfl
  exact @Pipeline.Built.push _ ⟨2⟩ (.map ⟨1⟩ (.struct row) _ _) _ first (by simp [readItems]) rfl

/-- Items are used in full by a function of unknown use, and no longer once it declares a field. -/
theorem silentIds_declareMore : silentPipeline.Built ∧ silentIds ∈ silentPipeline.steps ∧
    silentIds.IsOpaque ∧
    (collect silentPipeline silentIds.id).map (·.isUnrestricted item.name) = .ok true ∧
    silentPipeline.declareMore silentIds.id item ["id"] = itemPipeline ∧ itemPipeline.Built ∧
    (collect itemPipeline silentIds.id).map (·.isUnrestricted item.name) = .ok false :=
  ⟨silentPipeline_built, List.mem_cons_self .., ⟨rfl, rfl⟩, rfl, rfl, itemPipeline_built, rfl⟩

end UsedFields

end RecordFlow
