import RecordFlow.Proofs.Pruning.Losses

/-! The schemas nested in resolved schemas. Whatever was kept of a record type when a step was
resolved, what is nested anywhere shows what is kept of it at the end. Main statement: two nested
schemas of one name are equal, at any depth of any steps, and a read of their record type shows the
same columns unless a join has it too. -/

namespace RecordFlow.Resolution

open Schema (Catalog)

variable {p : Pipeline} {used : UsedFields} {r : Resolution} {s t : Step} {steps : List Step}

/-- A resolved schema has the schema nested in it, at some depth. -/
def Nests (r : Resolution) (u : Schema) : Prop :=
  ∃ id shown, r.schemas.find? id = some shown ∧ u ∈ Column.partsAll shown.columns

/-- Nested record types are pruned alike wherever they appear. -/
structure NestsAlike (r : Resolution) (p : Pipeline) : Prop where
  same : ∀ u v, r.Nests u → r.Nests v → u.name = v.name → u = v
  /-- Reads show what is nested of their record type, unless a resolved join has it too. -/
  reads : ∀ s ∈ p.steps, s.source? = none → ∀ shown, r.schemas.find? s.id = some shown →
    (∀ j ∈ p.steps, j.IsJoin → r.schemas.contains j.id = true → j.seed.name ≠ s.seed.name) →
    ∀ u, r.Nests u → u.name = s.seed.name → u.names = shown.names

/-- What is nested is a schema of the pipeline, restricted to what is kept at the end. -/
theorem Ordered.exists_of_nests (catalog : Catalog p.schemas) (arena : Arena p.steps)
    (ordered : Ordered p used steps) {u : Schema} (h : (after used steps).replayNested.Nests u) :
    ∃ v ∈ p.schemas, u = v.restrict (after used steps).restrictions.keeps := by
  obtain ⟨id, shown, found, hu⟩ := h
  obtain ⟨s, hs, rfl⟩ := exists_of_find? found
  obtain ⟨pre, post, he⟩ := List.append_of_mem hs
  rw [ordered.replayed catalog arena he] at found
  cases found
  obtain ⟨v, hv, rfl⟩ := Schema.mem_partsAll_prune hu
  exact ⟨v, catalog.closed _ (Pipeline.schema_mem arena (ordered.mem s hs)) v hv, rfl⟩

/-- In whatever order steps are resolved, what is nested in them is pruned alike. -/
theorem Ordered.nestsAlike (consistent : p.Consistent) (arena : Arena p.steps)
    (ordered : Ordered p used steps) : (after used steps).replayNested.NestsAlike p := by
  have catalog := consistent.catalog arena
  refine ⟨fun u v hu hv same => ?_, fun s hs read shown found alone u hu same => ?_⟩
  · obtain ⟨u', hu', rfl⟩ := ordered.exists_of_nests catalog arena hu
    obtain ⟨v', hv', rfl⟩ := ordered.exists_of_nests catalog arena hv
    rw [Schema.restrict_name, Schema.restrict_name] at same
    rw [catalog.coherent u' hu' v' hv' same]
  · obtain ⟨v, hv, rfl⟩ := ordered.exists_of_nests catalog arena hu
    obtain ⟨s', hs', hid⟩ := exists_of_find? found
    obtain rfl := arena.id_injective (ordered.mem s' hs') hs hid
    have alone' : ∀ j ∈ steps, j.IsJoin → j.seed.name ≠ s'.seed.name := fun j hj join =>
      alone j (ordered.mem j hj) join (contains_after_of_mem hj)
    rw [Schema.restrict_name, ← Pipeline.schema_name arena hs] at same
    obtain rfl := catalog.coherent v hv s'.schema (Pipeline.schema_mem arena hs) same
    rw [Schema.restrict_names, ordered.names_of_read consistent arena hs' read alone',
      ordered.names_replayed_of_read consistent arena hs' read alone' found]

/-- After the update of a target, and after resolving steps in any other order, nested record types
are pruned alike. -/
theorem update_nestsAlike (built : p.Built) (consistent : p.Consistent) (ht : t ∈ p.steps)
    (used : UsedFields) :
    (∃ r, fresh.update p used t.id = .ok r ∧ r.schemas.contains t.id = true ∧ r.NestsAlike p) ∧
      ∀ steps, Ordered p used steps → (after used steps).replayNested.NestsAlike p := by
  have arena := built.arena
  have ordered := (Plan.visited_spec used arena ht).ordered
  refine ⟨⟨_, Plan.update_eq used arena ht .empty, ?_, ordered.nestsAlike consistent arena⟩,
    fun steps ordered => ordered.nestsAlike consistent arena⟩
  exact contains_after_of_mem (Plan.mem_visited used arena ht)

def address : RecordType := ⟨"address", [⟨"street", .string, false⟩, ⟨"city", .string, false⟩]⟩

def resident : RecordType := ⟨"resident",
  [⟨"id", .int64, false⟩, ⟨"home", .struct address, false⟩,
    ⟨"previous", .list (.struct address), true⟩]⟩

def envelope : RecordType := ⟨"envelope", [⟨"street", .string, true⟩]⟩

def readAddresses : Step := ⟨⟨1⟩, address, address.schema, .unknown, .readCsv "addresses"⟩

/-- Makes a resident of the main street of a city. -/
def settleIn : Step := ⟨⟨2⟩, resident, resident.schema, FieldUsage.nothing.and address ["city"],
  .map ⟨1⟩ fun r => ⟨[("id", .int 1),
    ("home", .record ⟨[("street", .text "Main"), ("city", r.value "city")]⟩),
    ("previous", .list [])]⟩⟩

/-- Reads the street of the home of a resident, and does not say so. -/
def writeTo : Step := ⟨⟨3⟩, envelope, envelope.schema, .unknown, .map ⟨2⟩ fun r =>
  match r.value "home" with
  | .record home => ⟨[("street", home.value "street")]⟩
  | _ => ⟨[]⟩⟩

def homes : Pipeline := ⟨[writeTo, settleIn, readAddresses]⟩

theorem homes_built : homes.Built := by
  have first : Pipeline.Built ⟨[readAddresses]⟩ :=
    @Pipeline.Built.push _ ⟨1⟩ (.readCsv (.struct address) "addresses") _ .empty (by simp) rfl
  have second : Pipeline.Built ⟨[settleIn, readAddresses]⟩ :=
    @Pipeline.Built.push _ ⟨2⟩ (.map ⟨1⟩ (.struct resident) _ _) _ first
      (by simp [readAddresses]) rfl
  exact @Pipeline.Built.push _ ⟨3⟩ (.map ⟨2⟩ (.struct envelope) _ .unknown) _ second
    (by simp [readAddresses, settleIn]) rfl

theorem homes_consistent : homes.Consistent := by decide

theorem homes_joinless : ∀ j ∈ homes.steps, ¬ j.IsJoin := by
  rintro j hj ⟨source, key, joins, hop⟩
  simp only [homes, List.mem_cons, List.not_mem_nil, or_false] at hj
  rcases hj with rfl | rfl | rfl <;> cases hop

/-- All addresses of residents are pruned to what is read of addresses. -/
theorem homes_nestsAlike : homes.Built ∧ homes.Consistent ∧ writeTo ∈ homes.steps ∧ ∃ used r,
    UsedFields.collect homes writeTo.id = .ok used ∧ fresh.update homes used writeTo.id = .ok r ∧
      r.NestsAlike homes ∧ ∀ u, r.Nests u → u.name = "address" → u.names = ["city"] := by
  have target : writeTo ∈ homes.steps := List.mem_cons_self ..
  obtain ⟨⟨r, update, -, law⟩, -⟩ := update_nestsAlike homes_built homes_consistent target
    ⟨⟨["envelope", "resident"]⟩, ⟨[("address", ⟨["city"]⟩)]⟩⟩
  refine ⟨homes_built, homes_consistent, target, _, r, rfl, update, law, ?_⟩
  have read : readAddresses ∈ homes.steps := by simp [homes]
  cases update
  exact law.reads readAddresses read rfl ⟨"address", [⟨"city", .string, false, none⟩]⟩ rfl
    fun j hj join => absurd join (homes_joinless j hj)

end RecordFlow.Resolution
