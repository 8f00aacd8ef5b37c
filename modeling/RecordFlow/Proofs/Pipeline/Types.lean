import RecordFlow.Proofs.Pipeline.Construction
import RecordFlow.Proofs.Schema.Derivation

/-! The record types of a pipeline. Where no two of them share a name, their schemas can be looked
up by name at every depth. -/

namespace RecordFlow.Pipeline

/-- The record types of the steps, with all that are nested in them. -/
def recordTypes (p : Pipeline) : List RecordType := p.steps.flatMap (·.seed.parts)

/-- Record types that share a name are equal. -/
def Consistent (p : Pipeline) : Prop :=
  ∀ a ∈ p.recordTypes, ∀ b ∈ p.recordTypes, a.name = b.name → a = b

instance (p : Pipeline) : Decidable p.Consistent :=
  inferInstanceAs (Decidable (∀ a ∈ p.recordTypes, ∀ b ∈ p.recordTypes, a.name = b.name → a = b))

def schemas (p : Pipeline) : List Schema := p.recordTypes.map RecordType.schema

variable {p : Pipeline}

theorem seed_mem {s : Step} (hs : s ∈ p.steps) : s.seed ∈ p.recordTypes :=
  List.mem_flatMap.mpr ⟨s, hs, RecordType.mem_parts.mpr (.inl rfl)⟩

theorem mem_schemas {t : Schema} : t ∈ p.schemas ↔ ∃ s ∈ p.steps, t ∈ s.seed.schema.parts := by
  simp only [schemas, recordTypes, List.map_flatMap, List.mem_flatMap, RecordType.parts_schema]

theorem schema_mem (arena : Arena p.steps) {s : Step} (hs : s ∈ p.steps) :
    s.schema ∈ p.schemas := by
  rw [arena.derived hs]
  exact mem_schemas.mpr ⟨s, hs, Schema.mem_parts.mpr (.inl rfl)⟩

theorem schema_name (arena : Arena p.steps) {s : Step} (hs : s ∈ p.steps) :
    s.schema.name = s.seed.name := by
  rw [arena.derived hs, RecordType.schema_name]

theorem schema_names (arena : Arena p.steps) {s : Step} (hs : s ∈ p.steps) :
    s.schema.names = s.seed.fieldNames := by
  rw [arena.derived hs, RecordType.schema_names]

theorem Consistent.seed_eq (consistent : p.Consistent) {s t : Step} (hs : s ∈ p.steps)
    (ht : t ∈ p.steps) (he : s.seed.name = t.seed.name) : s.seed = t.seed :=
  consistent s.seed (seed_mem hs) t.seed (seed_mem ht) he

theorem Consistent.catalog (consistent : p.Consistent) (arena : Arena p.steps) :
    Schema.Catalog p.schemas := by
  refine ⟨fun s hs t ht => ?_, fun s hs t ht he => ?_, fun s hs => ?_⟩
  · obtain ⟨u, hu, hs⟩ := mem_schemas.mp hs
    refine mem_schemas.mpr ⟨u, hu, Schema.mem_parts.mpr (.inr ?_)⟩
    rcases Schema.mem_parts.mp hs with rfl | hs
    · exact ht
    · exact Column.partsAll_trans hs ht
  · obtain ⟨a, ha, rfl⟩ := List.mem_map.mp hs
    obtain ⟨b, hb, rfl⟩ := List.mem_map.mp ht
    rw [RecordType.schema_name, RecordType.schema_name] at he
    rw [consistent a ha b hb he]
  · obtain ⟨a, ha, rfl⟩ := List.mem_map.mp hs
    obtain ⟨u, hu, ha⟩ := List.mem_flatMap.mp ha
    rw [RecordType.schema_names]
    exact RecordType.check_distinct u.seed (arena.checked hu) a ha

end RecordFlow.Pipeline
