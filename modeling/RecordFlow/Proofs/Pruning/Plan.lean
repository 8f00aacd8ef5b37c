import RecordFlow.Plan
import RecordFlow.Proofs.Pruning.Resolution
import RecordFlow.Proofs.Pruning.UsedFields

/-! The plan of a run, read off the order in which its steps are resolved: every step of the order
shows what was kept of its record type when it was resolved, and performs the joins that are
needed. -/

namespace RecordFlow

namespace Plan

open Resolution (order after neededJoins settleAll settleStep Ordered)

variable {p : Pipeline} {used : UsedFields} {t s : Step}

/-- The steps that a run resolves, in order. -/
def visited (used : UsedFields) (p : Pipeline) (t : Step) : List Step := order used p.steps [] t.id

/-- The plan of a run with pruning. -/
def pruned (used : UsedFields) (p : Pipeline) (t : Step) : Plan :=
  ⟨t.id, {}, (after used (visited used p t)).replayNested.schemas,
    (after used (visited used p t)).activeJoins⟩

/-- The columns that are kept at the end. -/
def kept (used : UsedFields) (p : Pipeline) (t : Step) : ColumnSet :=
  (after used (visited used p t)).restrictions.keeps

theorem visited_spec (used : UsedFields) (arena : Arena p.steps) (ht : t ∈ p.steps) :
    Resolution.Reached p used [t.id] [] (visited used p t) :=
  Resolution.order_spec arena List.suffix_rfl ht (Resolution.ordered_iff.mpr .nil)

theorem mem_visited (used : UsedFields) (arena : Arena p.steps) (ht : t ∈ p.steps) :
    t ∈ visited used p t := by
  have spec := visited_spec used arena ht
  obtain ⟨u, hu, hid⟩ := spec.entered t.id (List.mem_singleton_self _)
  exact arena.id_injective (spec.ordered.mem u hu) ht hid ▸ hu

/-- Only steps that the target depends on are resolved. -/
theorem reaches_of_visited (arena : Arena p.steps) (ht : t ∈ p.steps) (hs : s ∈ visited used p t) :
    p.Reaches t s := by
  rcases (visited_spec used arena ht).reached s hs with h | ⟨u, hu, hid, path⟩
  · cases h
  · obtain rfl := arena.id_injective hu ht (List.mem_singleton.mp hid)
    exact path

/-- An update resolves the steps along the order. -/
theorem update_eq (used : UsedFields) (arena : Arena p.steps) (ht : t ∈ p.steps)
    (initial : StepMap Schema) : (Resolution.startingFrom initial).update p used t.id =
      .ok (settleAll used (.startingFrom initial) (visited used p t)).replayNested := by
  have visit : Resolution.visit used p.steps (.startingFrom initial) t.id =
      .ok (settleAll used (.startingFrom initial) (visited used p t)) :=
    Resolution.visit_eq arena initial p.steps [] t List.suffix_rfl ht
  simp only [Resolution.update, visit, bind, Except.bind, pure, Except.pure]

theorem build_pruned (arena : Arena p.steps) (ht : t ∈ p.steps)
    (hu : UsedFields.collect p t.id = .ok used) : build p t.id {} = .ok (pruned used p t) := by
  have update : Resolution.fresh.update p used t.id =
      .ok (after used (visited used p t)).replayNested := update_eq used arena ht .empty
  simp only [build, arena.step_eq ht, hu, update, bind, Except.bind, pure, Except.pure]
  rfl

/-- The plan of a run without pruning. -/
def unpruned (t : Step) : Plan := ⟨t.id, .pruningDisabled, .empty, .empty⟩

theorem build_disabled (arena : Arena p.steps) (ht : t ∈ p.steps) :
    build p t.id .pruningDisabled = .ok (unpruned t) := by
  simp [build, unpruned, arena.step_eq ht, CollectOptions.pruningDisabled, bind, Except.bind, pure,
    Except.pure]

/-! ### Schemas -/

theorem schemaOf_pruned (catalog : Schema.Catalog p.schemas) (arena : Arena p.steps)
    (ht : t ∈ p.steps) {pre post : List Step} (he : visited used p t = pre ++ s :: post) :
    (pruned used p t).schemaOf s =
      s.schema.prune ((after used (pre ++ [s])).restrictions.keeps s.schema.name)
        (kept used p t) := by
  have ordered := (visited_spec used arena ht).ordered
  rw [schemaOf, pruned, ordered.replayed catalog arena he]
  rfl

/-- The steps whose records the target passes on are resolved to the schema of the target. -/
theorem schemaOf_pruned_of_passes (used : UsedFields) (catalog : Schema.Catalog p.schemas)
    (arena : Arena p.steps) (ht : t ∈ p.steps) (h : Relation.ReflTransGen p.Passes t s) :
    (pruned used p t).schemaOf s = t.schema.restrict (kept used p t) := by
  obtain ⟨pre, post, he, hpost⟩ := Resolution.order_of_passes used arena ht h
  change visited used p t = pre ++ s :: post at he
  obtain ⟨hs, hseed⟩ := Pipeline.seed_eq_of_passes arena ht h
  have same : s.schema = t.schema := by rw [arena.derived hs, arena.derived ht, hseed]
  have ordered := (visited_spec used arena ht).ordered
  have split : pre ++ s :: post = (pre ++ [s]) ++ post := by simp
  have before : Ordered p used (pre ++ [s]) := (he ▸ ordered).upto
  have later : ∀ u ∈ post, u ∈ p.steps := fun u hu => ordered.mem u (by simp [he, hu])
  have starts := Resolution.fresh_starts used (visited used p t)
  rw [he, split, Resolution.startsAll_append] at starts
  have unchanged := Resolution.settleAll_keeps_of_passed used catalog arena later hpost
    (before.grows catalog arena).remembers starts.2
  rw [← Resolution.settleAll_append, ← split, ← he] at unchanged
  rw [schemaOf_pruned catalog arena ht he, same, Schema.restrict_eq_prune]
  refine Schema.prune_congr (fun x hx => ?_) fun _ _ _ _ => rfl
  exact (unchanged t.schema (Pipeline.schema_mem arena ht) x hx).symm

/-! ### Joins -/

theorem activeJoins_settleAll_of_ne {r : Resolution} {id : StepId} {steps : List Step}
    (h : ∀ s ∈ steps, s.id ≠ id) :
    (settleAll used r steps).activeJoins.find? id = r.activeJoins.find? id := by
  induction steps generalizing r with
  | nil => rfl
  | cons s rest ih =>
    refine (ih fun u hu => h u (List.mem_cons_of_mem _ hu)).trans ?_
    have ne := (h s (List.mem_cons_self ..)).symm
    unfold settleStep
    split <;> simp [Resolution.settleRead, Resolution.settleJoin, Resolution.settle,
      StepMap.find?_insert, ne]

/-- A resolved step performs the joins it needs. -/
theorem joinsOf_pruned (arena : Arena p.steps) (ht : t ∈ p.steps) (hs : s ∈ visited used p t) :
    (pruned used p t).joinsOf s = neededJoins used s := by
  cases hop : s.operation with
  | joinLeft source key joins =>
    have ordered := (visited_spec used arena ht).ordered
    obtain ⟨pre, post, he⟩ := List.append_of_mem hs
    have split : pre ++ s :: post = (pre ++ [s]) ++ post := by simp
    have later := ordered.ids_ne arena he
    have active : (pruned used p t).activeJoins.find? s.id =
        some (NameSet.empty.insertAll ((neededJoins used s).map (·.field))) := by
      simp only [pruned, he, split, after, Resolution.settleAll_append]
      rw [activeJoins_settleAll_of_ne later, ← Resolution.settleAll_append,
        Resolution.settleAll_concat, settleStep, hop]
      simp [Resolution.settleJoin, StepMap.find?_insert]
    rw [joinsOf, active]
    refine List.filter_congr fun j hj => ?_
    -- Whether a join is needed depends on its field alone.
    rw [Bool.eq_iff_iff, decide_eq_true_iff, NameSet.mem_insertAll, List.mem_map]
    constructor
    · intro listed
      rcases listed with ⟨k, hk, hf⟩ | h
      · have needed := (List.mem_filter.mp hk).2
        unfold Resolution.isNeeded at needed ⊢
        rwa [hf] at needed
      · cases h
    · exact fun needed => .inl ⟨j, List.mem_filter.mpr ⟨hj, needed⟩, rfl⟩
  | _ =>
    have none : s.joins = [] := by rw [Step.joins, hop]; rfl
    simp only [joinsOf, neededJoins, none, List.filter_nil]
    split <;> rfl

/-! ### Columns that joins drop -/

/-- The columns that a join takes from its source or fills. -/
def provided (plan : Plan) (p : Pipeline) (s : Step) : List String :=
  ((s.source?.bind (findStep · p.steps)).map fun u => (plan.schemaOf u).names).getD [] ++
    (plan.joinsOf s).flatMap Resolution.filledColumns

/-- A join that provides something, but not the column. -/
def Drops (plan : Plan) (p : Pipeline) (s : Step) (column : String) : Prop :=
  (∃ source key joins, s.operation = .joinLeft source key joins) ∧
    plan.provided p s ≠ [] ∧ column ∉ plan.provided p s

theorem not_drops_iff {plan : Plan} {source : StepId} {key : Record → Value} {joins : List Join}
    (hop : s.operation = .joinLeft source key joins) {x : String} :
    ¬ plan.Drops p s x ↔ plan.provided p s = [] ∨ x ∈ plan.provided p s := by
  constructor
  · intro keeps
    by_cases none : plan.provided p s = []
    · exact .inl none
    · exact .inr (Classical.byContradiction fun missing =>
        keeps ⟨⟨source, key, joins, hop⟩, none, missing⟩)
  · intro provides drops
    obtain ⟨-, some, missing⟩ := drops
    exact provides.elim some missing

theorem names_schemaOf_pruned (used : UsedFields) (catalog : Schema.Catalog p.schemas)
    (arena : Arena p.steps) (ht : t ∈ p.steps) {pre post : List Step}
    (he : visited used p t = pre ++ s :: post) :
    ((pruned used p t).schemaOf s).names =
      s.seed.fieldNames.filter ((after used (pre ++ [s])).restrictions.keeps s.seed.name) := by
  have hs := (visited_spec used arena ht).ordered.mem s (by simp [he])
  rw [schemaOf_pruned catalog arena ht he, Schema.prune_names, Pipeline.schema_names arena hs,
    Pipeline.schema_name arena hs]

/-- What a join provides when it is resolved is what it provides by the plan. -/
theorem provided_pruned (catalog : Schema.Catalog p.schemas) (arena : Arena p.steps)
    (ht : t ∈ p.steps) {pre post : List Step} (he : visited used p t = pre ++ s :: post)
    {source : StepId} (hsource : s.source? = some source) :
    Resolution.provided used (after used pre) source s = (pruned used p t).provided p s := by
  have ordered := (visited_spec used arena ht).ordered
  have hs : s ∈ visited used p t := by simp [he]
  have needed : source ∈ Resolution.neededInputs used s := by
    simp [Resolution.neededInputs, hsource]
  obtain ⟨u, hu, rfl⟩ := (ordered.before pre s post he).2 source needed
  obtain ⟨front, back, rfl⟩ := List.append_of_mem hu
  have before : Ordered p used (front ++ u :: back) := (he ▸ ordered).front
  have hup := before.mem u (by simp)
  have found := Resolution.names_after used catalog arena before
  have names := names_schemaOf_pruned used catalog arena ht
    (he.trans (by simp : _ = front ++ u :: (back ++ s :: post)))
  rw [provided, hsource, Option.bind_some, arena.findStep_eq hup, joinsOf_pruned arena ht hs]
  simp only [Resolution.provided, found, Option.map_some, Option.getD_some, names,
    Pipeline.schema_names arena hup, Pipeline.schema_name arena hup]

end Plan

end RecordFlow
