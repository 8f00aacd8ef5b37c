import RecordFlow.Proofs.Pipeline.Paths
import RecordFlow.Proofs.Schema.Alike
import RecordFlow.Pruning.Resolution

/-! What users promise of their functions. A function that declares its usage gives the same result
on a record and on what the listed fields leave of it; a join also lists what its records take
over. -/

namespace RecordFlow

/-- The function applied to the records of the source gives the same result on what it sees of
them. -/
def Operation.SeesOnly (see : Record → Record) : Operation → Prop
  | .filter _ predicate => ∀ r, predicate (see r) = predicate r
  | .map _ function => ∀ r, function (see r) = function r
  | .flatMap _ function => ∀ r, function (see r) = function r
  | .aggregate _ builder _ => ∀ r, builder (see r) = builder r
  | .joinLeft _ key _ => ∀ r, key (see r) = key r
  | _ => True

/-- Functions see the fields they list and no others, at any depth; those that list nothing at all
are given records in which no records are nested. -/
def Step.Honest (p : Pipeline) (s : Step) : Prop :=
  match s.usage with
  | .declared sets =>
    (∀ i, p.HasSource s i → s.operation.SeesOnly (i.schema.restrict sets.lists).conform) ∧
      ∀ j ∈ s.joins, ∀ i ∈ p.steps, i.id ∈ j.sources →
        ∀ r, j.key ((i.schema.restrict sets.lists).conform r) = j.key r
  | .unknown =>
    s.operation.appliesFunction = true → ∀ i, p.HasInput s i → ∀ c ∈ i.schema.columns,
    c.nested = none

/-- A join that lists fields lists those that its records take over from its source and from matched
records, but for what changes hands within one record type. -/
def Step.ListsTaken (p : Pipeline) (s : Step) : Prop :=
  match s.usage, s.operation with
  | .declared sets, .joinLeft source _ joins =>
    (∀ i ∈ p.steps, i.id = source → i.seed = s.seed ∨
      ∀ c ∈ i.schema.columns, ∀ d ∈ s.schema.columns, d.name = c.name →
        (∀ j ∈ joins, c.name ∉ Resolution.filledColumns j) →
        sets.lists i.seed.name c.name = true ∧ Schema.Carries sets.lists c.nested d.nested) ∧
    ∀ j ∈ joins, ∀ i ∈ p.steps, i.id ∈ j.sources → ∀ d ∈ s.schema.columns, d.name = j.field →
      Schema.Carries sets.lists (some i.schema) d.nested
  | _, _ => True

end RecordFlow
