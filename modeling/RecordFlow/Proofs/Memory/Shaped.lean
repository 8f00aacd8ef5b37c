import RecordFlow.Memory.Engine
import RecordFlow.Proofs.Csv.Reader
import RecordFlow.Proofs.Evaluation
import RecordFlow.Proofs.Pruning.Plan

/-! The shape of what is collected. Every operation that makes records shapes them by the schema of
its step, and the steps that only pass records on are resolved right after the one whose records
they pass, to the same schema. Main statement: collected records are shaped by the schema of the
target. -/

namespace RecordFlow.Memory

open Evaluation (plain plainStep plain_eq)

variable {p : Pipeline} {src : Sources} {plan : Plan} {s t : Step}

/-! ### Operations that make records -/

theorem readCsv_shaped {context : StepContext} {locator : String} {rows : List Record}
    (stable : context.schema.Stable) (h : src.readCsv context locator = .ok rows) :
    ∀ r ∈ rows, context.schema.conform r = r := by
  unfold Sources.readCsv at h
  split at h
  · next records htable =>
    cases h
    obtain ⟨table, -, rfl⟩ := Option.map_eq_some_iff.mp htable
    intro r hr
    obtain ⟨x, -, rfl⟩ := List.mem_map.mp hr
    exact stable.conform_conform x
  · cases hf : src.readCsvFile context locator with
    | error e =>
      rw [hf] at h
      cases h
    | ok records =>
      rw [hf] at h
      cases h
      unfold Sources.readCsvFile at hf
      split at hf
      · cases hf
      · cases hf
      · cases hf
      · simp only at hf
        split at hf
        · obtain ⟨reader, hreader, hread⟩ := exists_of_bind_ok hf
          exact fun r hr => Csv.openText_shaped stable hreader r (Reader.readAll_mem hread r hr)
        · obtain ⟨reader, hreader, hread⟩ := exists_of_bind_ok hf
          exact fun r hr => Csv.readerOf_shaped stable hreader r (Reader.readAll_mem hread r hr)

theorem readParquet_shaped {name : String} {context : StepContext} {locator : String}
    {rows : List Record} (stable : context.schema.Stable)
    (h : src.readParquet name context locator = .ok rows) :
    ∀ r ∈ rows, context.schema.conform r = r := by
  unfold Sources.readParquet at h
  split at h
  · next records htable =>
    cases h
    obtain ⟨table, -, rfl⟩ := Option.map_eq_some_iff.mp htable
    intro r hr
    obtain ⟨x, -, rfl⟩ := List.mem_map.mp hr
    exact stable.conform_conform x
  · cases h

/-- Operations that do not pass records on shape them. -/
theorem shaped_of_plainStep {value : StepId → Except Error (List Record)} {rows : List Record}
    (makes : s.operation.passed? = none) (stable : (plan.schemaOf s).Stable)
    (h : plainStep (engine src) plan value s = .ok rows) :
    ∀ r ∈ rows, (plan.schemaOf s).conform r = r := by
  have conformed (x : Record) :
      (plan.schemaOf s).conform ((plan.schemaOf s).conform x) = (plan.schemaOf s).conform x :=
    stable.conform_conform x
  unfold plainStep at h
  cases hop : s.operation with
  | empty =>
    rw [hop] at h
    cases h
    simp
  | readCsv locator =>
    rw [hop] at h
    exact readCsv_shaped stable h
  | readParquet locator =>
    rw [hop] at h
    exact readParquet_shaped stable h
  | filter | limit =>
    rw [hop] at makes
    cases makes
  | map source function =>
    rw [hop] at h
    obtain ⟨records, -, h⟩ := exists_of_bind_ok h
    cases h
    intro r hr
    obtain ⟨x, -, rfl⟩ := List.mem_map.mp hr
    exact conformed _
  | flatMap source function =>
    rw [hop] at h
    obtain ⟨records, -, h⟩ := exists_of_bind_ok h
    cases h
    intro r hr
    obtain ⟨x, -, hr⟩ := List.mem_flatMap.mp hr
    obtain ⟨y, -, rfl⟩ := List.mem_map.mp hr
    exact conformed _
  | aggregate source builder layout =>
    rw [hop] at h
    obtain ⟨records, -, h⟩ := exists_of_bind_ok h
    obtain ⟨groups, -, h⟩ := exists_of_bind_ok h
    cases h
    intro r hr
    obtain ⟨x, -, rfl⟩ := List.mem_map.mp hr
    exact conformed _
  | joinLeft source key joins =>
    rw [hop] at h
    obtain ⟨left, -, h⟩ := exists_of_bind_ok h
    obtain ⟨inputs, -, h⟩ := exists_of_bind_ok h
    intro r hr
    obtain ⟨x, -, hx⟩ := exists_of_mapM_ok h r hr
    obtain ⟨y, -, hy⟩ := exists_of_bind_ok hx
    cases hy
    exact conformed _

/-! ### Steps that pass records on -/

/-- What a step passes on are records of its source. -/
theorem mem_of_passes (arena : Arena p.steps) (hs : s ∈ p.steps)
    (h : Relation.ReflTransGen p.Passes s t) {rows : List Record}
    (hrows : plain (engine src) plan p.steps s.id = .ok rows) :
    ∃ made, plain (engine src) plan p.steps t.id = .ok made ∧ ∀ r ∈ rows, r ∈ made := by
  induction h using Relation.ReflTransGen.head_induction_on generalizing rows with
  | refl => exact ⟨rows, hrows, fun _ h => h⟩
  | @head s u first _ ih =>
    obtain ⟨hu, hpassed⟩ := first
    rw [plain_eq _ _ arena hs, plainStep] at hrows
    cases hop : s.operation with
    | filter source predicate =>
      rw [hop] at hrows hpassed
      cases hpassed
      obtain ⟨records, hrecords, hrows⟩ := exists_of_bind_ok hrows
      cases hrows
      obtain ⟨made, hmade, hmem⟩ := ih hu hrecords
      exact ⟨made, hmade, fun r hr => hmem r (List.mem_filter.mp hr).1⟩
    | limit source count =>
      rw [hop] at hrows hpassed
      cases hpassed
      obtain ⟨records, hrecords, hrows⟩ := exists_of_bind_ok hrows
      cases hrows
      obtain ⟨made, hmade, hmem⟩ := ih hu hrecords
      exact ⟨made, hmade, fun r hr => hmem r (List.mem_of_mem_take hr)⟩
    | _ =>
      rw [hop] at hpassed
      cases hpassed

/-- Some step makes the records that a step passes on. -/
theorem exists_maker (arena : Arena p.steps) (hs : s ∈ p.steps) :
    ∃ u, Relation.ReflTransGen p.Passes s u ∧ u.operation.passed? = none := by
  obtain ⟨n, hn⟩ : ∃ n, s.id.number = n := ⟨_, rfl⟩
  induction n using Nat.strongRecOn generalizing s with
  | ind n ih =>
    cases hp : s.operation.passed? with
    | none => exact ⟨s, .refl, hp⟩
    | some id =>
      obtain ⟨earlier, hsuffix, fits⟩ := arena.fits hs
      obtain ⟨v, hv, rfl, -⟩ := fits.passed id hp
      have hvp : v ∈ p.steps := hsuffix.subset (List.mem_cons_of_mem _ hv)
      obtain ⟨u, path, made⟩ := ih v.id.number (hn ▸ fits.above v hv) hvp rfl
      exact ⟨u, .head ⟨hvp, hp⟩ path, made⟩

/-! ### Runs -/

/-- The schema of the target is stable, and also that of any step whose records the target passes
on. -/
theorem target_schema (consistent : p.Consistent) (arena : Arena p.steps) (ht : t ∈ p.steps)
    (options : CollectOptions) :
    ∃ plan, Plan.build p t.id options = .ok plan ∧ (plan.schemaOf t).Stable ∧
      ∀ s, Relation.ReflTransGen p.Passes t s → plan.schemaOf s = plan.schemaOf t := by
  have catalog := consistent.catalog arena
  have distinct := catalog.distinct_parts (Pipeline.schema_mem arena ht)
  obtain ⟨disabled⟩ := options
  cases disabled with
  | true =>
    refine ⟨_, Plan.build_disabled arena ht, ?_, fun s h => ?_⟩
    · have stable := Schema.prune_stable (fun _ => true) (fun _ _ => true) distinct
      rwa [Schema.prune_all] at stable
    · obtain ⟨hs, hseed⟩ := Pipeline.seed_eq_of_passes arena ht h
      show s.schema = t.schema
      rw [arena.derived hs, arena.derived ht, hseed]
  | false =>
    obtain ⟨used, hused, -⟩ := UsedFields.collect_spec arena ht
    have schemas (s : Step) (h : Relation.ReflTransGen p.Passes t s) :=
      Plan.schemaOf_pruned_of_passes used catalog arena ht h
    refine ⟨_, Plan.build_pruned arena ht hused, ?_, fun s h => ?_⟩
    · rw [schemas t .refl, Schema.restrict_eq_prune]
      exact Schema.prune_stable _ _ distinct
    · rw [schemas s h, schemas t .refl]

/-- The records of the target are shaped by its schema. -/
theorem target_shaped (consistent : p.Consistent) (arena : Arena p.steps) (ht : t ∈ p.steps)
    {options : CollectOptions} (hplan : Plan.build p t.id options = .ok plan) {rows : List Record}
    (h : plain (engine src) plan p.steps t.id = .ok rows) :
    ∀ r ∈ rows, (plan.schemaOf t).conform r = r := by
  obtain ⟨plan', hplan', stable, same⟩ := target_schema consistent arena ht options
  obtain rfl := Except.ok.inj (hplan'.symm.trans hplan)
  obtain ⟨u, path, makes⟩ := exists_maker arena ht
  obtain ⟨made, hmade, hmem⟩ := mem_of_passes arena ht path h
  have hu := (Pipeline.seed_eq_of_passes arena ht path).1
  rw [plain_eq _ _ arena hu] at hmade
  intro r hr
  rw [← same u path] at stable ⊢
  exact shaped_of_plainStep makes stable hmade r (hmem r hr)

/-- Whatever the tables and files hold, and with pruning or without, collected records are shaped by
the schema that the plan has for the target. -/
theorem collect_shaped (built : p.Built) (consistent : p.Consistent) (ht : t ∈ p.steps)
    (src : Sources) (options : CollectOptions) {rows : List Record}
    (h : ((engine src).collect p t.id options).run = .ok rows) :
    ∃ plan, Plan.build p t.id options = .ok plan ∧
      ∀ r ∈ rows, (plan.schemaOf t).conform r = r ∧ (plan.schemaOf t).Shapes r := by
  have arena := built.arena
  obtain ⟨plan, hplan, -⟩ := target_schema consistent arena ht options
  rw [Evaluation.collect_eq _ arena ht hplan] at h
  obtain ⟨collected, hcollected, h⟩ := exists_of_bind_ok h
  cases h
  refine ⟨plan, hplan, fun r hr => ?_⟩
  have shaped := target_shaped consistent arena ht hplan hcollected r hr
  exact ⟨shaped, shaped ▸ Schema.shapes_conform (plan.schemaOf t) r⟩

/-- The first of the ids of items. -/
def firstId : Step :=
  ⟨⟨3⟩, UsedFields.row, UsedFields.row.schema, .unknown, .limit ⟨2⟩ 1⟩

def firstItem : Pipeline := ⟨firstId :: UsedFields.itemPipeline.steps⟩

def itemTable : Sources where
  tables := [("items", [⟨[("tag", .text "new"), ("id", .int 7)]⟩, ⟨[("id", .int 8)]⟩])]

theorem firstItem_built : firstItem.Built :=
  @Pipeline.Built.push _ ⟨3⟩ (.limit ⟨2⟩ 1) _ UsedFields.itemPipeline_built
    (by simp [UsedFields.itemPipeline, UsedFields.itemIds, UsedFields.readItems]) rfl

theorem firstItem_shaped : firstItem.Built ∧ firstItem.Consistent ∧ firstId ∈ firstItem.steps ∧
    ((engine itemTable).collect firstItem firstId.id {}).run = .ok [⟨[("id", .int 7)]⟩] ∧
    ∃ plan, Plan.build firstItem firstId.id {} = .ok plan ∧
      ∀ r ∈ [Record.mk [("id", .int 7)]],
        (plan.schemaOf firstId).conform r = r ∧ (plan.schemaOf firstId).Shapes r := by
  have built := firstItem_built
  have consistent : firstItem.Consistent := by decide
  have mem : firstId ∈ firstItem.steps := List.mem_cons_self ..
  have run : ((engine itemTable).collect firstItem firstId.id {}).run =
      .ok [⟨[("id", .int 7)]⟩] := rfl
  exact ⟨built, consistent, mem, run, collect_shaped built consistent mem itemTable {} run⟩

end RecordFlow.Memory
