import Mathlib.Logic.Relation
import RecordFlow.Proofs.Pipeline.Construction

/-! The graph of a pipeline: the edges from a step to its inputs, and which of them collected
records are followed along. -/

namespace RecordFlow.Pipeline

def HasSource (p : Pipeline) (s t : Step) : Prop := t ∈ p.steps ∧ s.source? = some t.id

def HasJoined (p : Pipeline) (s t : Step) : Prop := t ∈ p.steps ∧ ∃ j ∈ s.joins, t.id ∈ j.sources

def HasInput (p : Pipeline) (s t : Step) : Prop := p.HasSource s t ∨ p.HasJoined s t

/-- An edge along which the collecting of records goes on: every joined step, and the source of a
step that passes its records. -/
def Collects (p : Pipeline) (s t : Step) : Prop :=
  (p.HasSource s t ∧ s.operation.passesRecords = true) ∨ p.HasJoined s t

/-- Collecting stops at what makes records of its own. -/
theorem collects_iff {p : Pipeline} {s t : Step} : p.Collects s t ↔
    (p.HasSource s t ∧ s.operation.kind ∉ ["Map", "FlatMap", "Aggregate", "JoinLeft"]) ∨
      p.HasJoined s t := by
  rw [Collects, Operation.passesRecords_iff]

/-- The records of a step are some of the records of its source, as they are. -/
def Passes (p : Pipeline) (s t : Step) : Prop := t ∈ p.steps ∧ s.operation.passed? = some t.id

abbrev Reaches (p : Pipeline) : Step → Step → Prop := Relation.ReflTransGen p.HasInput

theorem hasInput_iff {p : Pipeline} {s t : Step} :
    p.HasInput s t ↔ t ∈ p.steps ∧ t.id ∈ s.inputs := by
  simp only [HasInput, HasSource, HasJoined, Step.inputs, List.mem_append, Option.mem_toList,
    List.mem_flatMap]
  exact and_or_left.symm

theorem Reaches.mem {p : Pipeline} {s t : Step} (h : p.Reaches s t) (hs : s ∈ p.steps) :
    t ∈ p.steps := by
  cases h with
  | refl => exact hs
  | tail _ last => exact (hasInput_iff.mp last).1

theorem exists_source {p : Pipeline} (arena : Arena p.steps) {s : Step} (hs : s ∈ p.steps)
    {id : StepId} (h : s.source? = some id) : ∃ i, p.HasSource s i ∧ i.id = id := by
  have input : id ∈ s.inputs := by simp [Step.inputs, h]
  obtain ⟨i, hi, rfl⟩ := arena.input_mem hs input
  exact ⟨i, ⟨hi, h⟩, rfl⟩

/-- Inputs stand below, so no step is reached from its own inputs. -/
theorem Reaches.below {p : Pipeline} (arena : Arena p.steps) {s t : Step} (h : p.Reaches s t)
    (hs : s ∈ p.steps) : t.id.number ≤ s.id.number := by
  induction h with
  | refl => exact Nat.le_refl _
  | @tail a b path last ih =>
    obtain ⟨hb, hi⟩ := hasInput_iff.mp last
    have := arena.input_below (Reaches.mem path hs) hb hi
    omega

theorem Passes.hasInput {p : Pipeline} {s t : Step} (h : p.Passes s t) : p.HasInput s t := by
  obtain ⟨ht, hp⟩ := h
  refine .inl ⟨ht, ?_⟩
  unfold Operation.passed? at hp
  unfold Step.source?
  split at hp <;> simp_all [Operation.source?]

/-- Records are passed from steps of the same record type. -/
theorem seed_eq_of_passes {p : Pipeline} (arena : Arena p.steps) {s t : Step} (hs : s ∈ p.steps)
    (h : Relation.ReflTransGen p.Passes s t) : t ∈ p.steps ∧ t.seed = s.seed := by
  induction h with
  | refl => exact ⟨hs, rfl⟩
  | tail _ last ih =>
    obtain ⟨hb, he⟩ := ih
    exact ⟨last.1, (arena.passed_seed hb last.1 last.2).trans he⟩

end RecordFlow.Pipeline
