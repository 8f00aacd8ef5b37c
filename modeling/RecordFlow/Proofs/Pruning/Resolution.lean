import RecordFlow.Proofs.Pipeline.Types
import RecordFlow.Proofs.Pruning.Order
import RecordFlow.Proofs.Pruning.Restrictions

/-! What resolving makes of the schemas of steps. What a step shows of its record type is what is
kept of the name once the step is resolved; what is nested in it shows what is kept at the end. -/

namespace RecordFlow.Resolution

open Schema (Catalog AgreeOn)

variable {p : Pipeline} {used : UsedFields} {base : ColumnSet} {r : Resolution} {s : Step}

/-- The columns that a join may keep: those of its source and those that its needed joins fill. -/
def provided (used : UsedFields) (r : Resolution) (source : StepId) (s : Step) : List String :=
  ((r.schemas.find? source).map Schema.names).getD [] ++ (neededJoins used s).flatMap filledColumns

/-- The columns kept once a step is resolved. A read that is narrowed forgets what was kept of its
record type before; a join keeps of it what it provides. -/
def keepsAfter (used : UsedFields) (r : Resolution) (s : Step) : ColumnSet := fun record column =>
  if record = s.schema.name then
    match s.operation with
    | .empty | .readCsv _ | .readParquet _ =>
      match used.fieldsOf? s.seed with
      | none | some [] => r.restrictions.keeps record column
      | some fields => column ∈ fields
    | .joinLeft source _ _ =>
      r.restrictions.keeps record column &&
        ((provided used r source s).isEmpty || decide (column ∈ provided used r source s))
    | _ => r.restrictions.keeps record column
  else r.restrictions.keeps record column

/-- The schema that a step is resolved from shows all that is kept of its record type then, and the
base in what is nested in it. -/
def Starts (used : UsedFields) (base : ColumnSet) (r : Resolution) (s : Step) : Prop := ∃ shown,
  (r.initial.find? s.id).getD s.schema = s.schema.prune shown base ∧
    ∀ x ∈ s.schema.names, keepsAfter used r s s.schema.name x = true → shown x = true

/-- Every step starts so when it is its turn. -/
def StartsAll (used : UsedFields) (base : ColumnSet) : Resolution → List Step → Prop
  | _, [] => True
  | r, s :: rest => Starts used base r s ∧ StartsAll used base (settleStep used r s) rest

/-- Resolving a step brings its schema in line with the columns that are kept from then on. -/
structure Settled (p : Pipeline) (used : UsedFields) (base : ColumnSet) (r : Resolution) (s : Step)
    (r' : Resolution) : Prop where
  grows : r.restrictions.Grows base p.schemas r'.restrictions
  keeps : AgreeOn p.schemas r'.restrictions.keeps (keepsAfter used r s)
  schema : ∃ inner,
    r'.schemas.find? s.id = some (s.schema.prune (r'.restrictions.keeps s.schema.name) inner) ∧
      r'.restrictions.Covers base (Column.partsAll s.schema.columns) inner
  others : ∀ id, id ≠ s.id → r'.schemas.find? id = r.schemas.find? id

/-! ### One step -/

/-- An update of the schema of a step to the columns that are kept from then on. -/
structure Updates (p : Pipeline) (base : ColumnSet) (r : Restrictions) (t : Schema)
    (kept : ColumnSet) (u : Restrictions.Update) : Prop where
  grows : r.Grows base p.schemas u.restrictions
  keeps : AgreeOn p.schemas u.restrictions.keeps kept
  schema : ∃ inner, u.schema = t.prune (u.restrictions.keeps t.name) inner ∧
    u.restrictions.Covers base (Column.partsAll t.columns) inner

section

variable {r : Restrictions} {t : Schema} {kept kept' inner : ColumnSet} {shown : String → Bool}
  {u u' : Restrictions.Update}

theorem Updates.congr (h : Updates p base r t kept u) (hk : AgreeOn p.schemas kept kept') :
    Updates p base r t kept' u :=
  ⟨h.grows, fun v hv x hx => (h.keeps v hv x hx).trans (hk v hv x hx), h.schema⟩

theorem Updates.trans (h : Updates p base r t kept u)
    (h' : Updates p base u.restrictions t u.restrictions.keeps u') : Updates p base r t kept u' :=
  ⟨h.grows.trans h'.grows, fun v hv x hx => (h'.keeps v hv x hx).trans (h.keeps v hv x hx),
    h'.schema⟩

/-- An update that shows what is kept and remembers nothing. -/
theorem Updates.unchanged (remembers : r.Remembers base p.schemas) (hr : u.restrictions = r)
    (hu : u.schema = t.prune (r.keeps t.name) (r.keepsOver base)) :
    Updates p base r t r.keeps u := by
  refine ⟨?_, ?_, r.keepsOver base, ?_, ?_⟩ <;> rw [hr]
  · exact .refl remembers
  · exact fun _ _ _ _ => rfl
  · exact hu
  · exact r.covers_keepsOver base _

/-- An update that remembers what it shows. -/
theorem Updates.remembered (catalog : Catalog p.schemas) (ht : t ∈ p.schemas)
    (remembers : r.Remembers base p.schemas)
    (hr : u.restrictions = r.insert t.name (t.prune shown (r.keepsOver base)).columns)
    (hu : u.schema = t.prune shown (r.keepsOver base)) :
    Updates p base r t (fun n x => if n = t.name then shown x else r.keeps n x) u := by
  have grows := Restrictions.Grows.insert catalog remembers ht shown (r.covers_keepsOver base _)
  have keeps := Restrictions.keeps_insert_prune catalog ht r shown (r.keepsOver base)
  refine ⟨hr ▸ grows, hr ▸ keeps, r.keepsOver base, ?_, ?_⟩
  · rw [hu, hr]
    refine Schema.prune_congr (fun x hx => ?_) fun _ _ _ _ => rfl
    exact ((keeps t ht x hx).trans (if_pos rfl)).symm
  · rw [hr]
    exact grows.covers (r.covers_keepsOver base _)

theorem replay_updates (catalog : Catalog p.schemas) (ht : t ∈ p.schemas)
    (remembers : r.Remembers base p.schemas)
    (covers : r.Covers base (Column.partsAll t.columns) inner)
    (whole : ∀ x ∈ t.names, r.keeps t.name x = true → shown x = true) :
    Updates p base r t r.keeps (r.replay (t.prune shown inner)) := by
  by_cases known : r.find? t.name = none
  · have all : ∀ x ∈ t.names, shown x = r.keeps t.name x := fun x hx => by
      have keeps := Restrictions.keeps_of_find?_eq_none known x
      rw [keeps, whole x hx keeps]
    obtain ⟨schema, same | inserted⟩ :=
      Restrictions.replay_of_unknown catalog ht remembers covers known shown
    · refine .unchanged remembers same (schema.trans ?_)
      exact Schema.prune_congr all fun _ _ _ _ => rfl
    · refine (Updates.remembered catalog ht remembers inserted schema).congr fun v hv x hx => ?_
      by_cases same : v.name = t.name
      · obtain rfl := catalog.coherent v hv t ht same
        simp [all x hx]
      · simp [same]
  · have replayed : r.replay (t.prune shown inner) = _ :=
      Restrictions.replay_of_known catalog ht remembers known _
    exact .unchanged remembers (by rw [replayed]) (by rw [replayed])

/-- A schema narrowed to used columns takes these over. -/
theorem narrow_updates (catalog : Catalog p.schemas) (ht : t ∈ p.schemas)
    (remembers : r.Remembers base p.schemas)
    (covers : r.Covers base (Column.partsAll t.columns) inner) (shown : String → Bool)
    {names : List String} (hn : names ≠ []) :
    Updates p base r t
      (fun n x => if n = t.name then shown x && decide (x ∈ names) else r.keeps n x)
      (r.narrow (t.prune shown inner) (some names)) := by
  have narrowed := Restrictions.narrow_prune catalog ht remembers covers shown hn
  exact .remembered catalog ht remembers (by rw [narrowed]) (by rw [narrowed])

/-- A read shows the used fields, if any are known, else what is kept. -/
theorem read_updates (catalog : Catalog p.schemas) (ht : t ∈ p.schemas)
    (remembers : r.Remembers base p.schemas) (fields : Option (List String))
    (hkept : kept = fun n x =>
      if n = t.name then
        match fields with
        | none | some [] => r.keeps n x
        | some fields => decide (x ∈ fields)
      else r.keeps n x)
    (whole : ∀ x ∈ t.names, kept t.name x = true → shown x = true)
    (hu : u = r.narrow (t.prune shown base) fields) :
    Updates p base r t kept (u.restrictions.replay u.schema) := by
  have covers := r.covers_base base (Column.partsAll t.columns)
  subst hkept hu
  match fields with
  | none | some [] =>
    simp only [if_pos] at whole
    exact (replay_updates catalog ht remembers covers whole).congr fun _ _ _ _ => by simp
  | some (field :: rest) =>
    have narrowed := narrow_updates catalog ht remembers covers shown (List.cons_ne_nil field rest)
    refine (narrowed.trans ?_).congr fun v hv x hx => ?_
    · obtain ⟨inner', schema, covers'⟩ := narrowed.schema
      rw [schema]
      exact replay_updates catalog ht narrowed.grows.remembers covers' fun _ _ keeps => keeps
    · by_cases same : v.name = t.name
      · obtain rfl := catalog.coherent v hv t ht same
        have shows := whole x hx
        simp only [if_pos] at shows ⊢
        cases hmem : decide (x ∈ field :: rest) with
        | false => simp
        | true => simp [shows hmem]
      · simp [same]

/-- A replay shows what is kept of a known name and what was shown before of an unknown one. Of
other names it keeps what was kept. -/
theorem replay_shows (catalog : Catalog p.schemas) (ht : t ∈ p.schemas)
    (remembers : r.Remembers base p.schemas)
    (covers : r.Covers base (Column.partsAll t.columns) inner) (shown : String → Bool)
    (hu : u = r.replay (t.prune shown inner)) :
    (∃ shown', u.schema = t.prune shown' (r.keepsOver base) ∧
      ∀ x ∈ t.names, r.keeps t.name x = true ∧ shown' x = shown x ∨ shown' x = r.keeps t.name x) ∧
      r.Grows base p.schemas u.restrictions ∧
      ∀ v ∈ p.schemas, v.name ≠ t.name → ∀ x ∈ v.names,
        u.restrictions.keeps v.name x = r.keeps v.name x := by
  subst hu
  by_cases known : r.find? t.name = none
  · have keeps := Restrictions.keeps_of_find?_eq_none known
    obtain ⟨schema, unchanged | inserted⟩ :=
      Restrictions.replay_of_unknown catalog ht remembers covers known shown
    · rw [schema, unchanged]
      exact ⟨⟨shown, rfl, fun x _ => .inl ⟨keeps x, rfl⟩⟩, .refl remembers, fun _ _ _ _ _ => rfl⟩
    · rw [schema, inserted]
      refine ⟨⟨shown, rfl, fun x _ => .inl ⟨keeps x, rfl⟩⟩,
        .insert catalog remembers ht shown (r.covers_keepsOver base _), fun v hv ne x hx => ?_⟩
      exact (Restrictions.keeps_insert_prune catalog ht r shown _ v hv x hx).trans (if_neg ne)
  · have replayed : r.replay (t.prune shown inner) = _ :=
      Restrictions.replay_of_known catalog ht remembers known _
    rw [replayed]
    exact ⟨⟨r.keeps t.name, rfl, fun _ _ => .inr rfl⟩, .refl remembers, fun _ _ _ _ _ => rfl⟩

/-- A join shows of what is kept what it provides, or all if it provides nothing. -/
theorem join_updates (catalog : Catalog p.schemas) (ht : t ∈ p.schemas)
    (remembers : r.Remembers base p.schemas) (names : List String)
    (hkept : kept = fun n x =>
      if n = t.name then r.keeps n x && (names.isEmpty || decide (x ∈ names)) else r.keeps n x)
    (whole : ∀ x ∈ t.names, kept t.name x = true → shown x = true)
    (hu : u = r.replay (t.prune shown base)) :
    Updates p base r t kept (u.restrictions.narrow u.schema (some names)) := by
  have covers := r.covers_base base (Column.partsAll t.columns)
  subst hkept
  simp only [if_pos] at whole
  cases names with
  | nil =>
    subst hu
    have replayed := replay_updates catalog ht remembers covers fun x hx keeps =>
      whole x hx (by simp [keeps])
    exact ⟨replayed.grows, fun v hv x hx => (replayed.keeps v hv x hx).trans (by simp),
      replayed.schema⟩
  | cons name rest =>
    obtain ⟨⟨shown', schema, shows⟩, grows, others⟩ :=
      replay_shows catalog ht remembers covers shown hu
    have narrowed := narrow_updates catalog ht grows.remembers
      (grows.covers (r.covers_keepsOver base _)) shown' (List.cons_ne_nil name rest)
    rw [← schema] at narrowed
    refine ⟨grows.trans narrowed.grows, fun v hv x hx => (narrowed.keeps v hv x hx).trans ?_,
      narrowed.schema⟩
    by_cases same : v.name = t.name
    · obtain rfl := catalog.coherent v hv t ht same
      have starts := whole x hx
      simp only [if_pos, List.isEmpty_cons, Bool.false_or]
      rcases shows x hx with ⟨keeps, he⟩ | he
      · -- Nothing is known of the name, and what the join provides was shown from the start.
        rw [he, keeps, Bool.true_and]
        cases provides : decide (x ∈ name :: rest) with
        | false => simp
        | true => simp [starts (by simp only [keeps, provides, Bool.or_true, Bool.and_true])]
      · rw [he]
    · simp only [if_neg same]
      exact others v hv same x hx

end

theorem settleStep_spec (used : UsedFields) (catalog : Catalog p.schemas) (arena : Arena p.steps)
    (hs : s ∈ p.steps) (remembers : r.restrictions.Remembers base p.schemas)
    (starts : Starts used base r s) : Settled p used base r s (settleStep used r s) := by
  obtain ⟨shown, start, whole⟩ := starts
  have ht := Pipeline.schema_mem arena hs
  -- The settled schema is the updated one, whatever the update.
  suffices updates : ∃ u, Updates p base r.restrictions s.schema (keepsAfter used r s) u ∧
      (settleStep used r s).restrictions = u.restrictions ∧
      (settleStep used r s).schemas.find? s.id = some u.schema by
    obtain ⟨u, hu, hr, hf⟩ := updates
    obtain ⟨inner, schema, covers⟩ := hu.schema
    refine ⟨hr ▸ hu.grows, hr ▸ hu.keeps, ⟨inner, ?_, hr ▸ covers⟩,
      fun id hid => find?_settleStep_of_ne r hid⟩
    rw [hf, hr, schema]
  unfold settleStep
  unfold keepsAfter at whole ⊢
  rw [start]
  revert whole
  cases hop : s.operation with
  | empty | readCsv | readParquet =>
    intro whole
    exact ⟨_, read_updates catalog ht remembers (used.fieldsOf? s.seed) rfl whole rfl, rfl, by
      simp [settleRead, find?_settle]⟩
  | filter | map | flatMap | aggregate | limit =>
    intro whole
    simp only [if_pos] at whole
    exact ⟨_, (replay_updates catalog ht remembers (r.restrictions.covers_base base _) whole).congr
      fun _ _ _ _ => by simp, rfl, by simp [find?_settle]⟩
  | joinLeft source key joins =>
    intro whole
    exact ⟨_, join_updates catalog ht remembers (provided used r source s) rfl whole rfl,
      rfl, by simp [settleJoin, find?_settle, provided]⟩

/-! ### All steps -/

theorem startsAll_append {steps steps' : List Step} : StartsAll used base r (steps ++ steps') ↔
    StartsAll used base r steps ∧ StartsAll used base (settleAll used r steps) steps' := by
  induction steps generalizing r with
  | nil => exact (and_iff_right trivial).symm
  | cons s rest ih => exact (and_congr_right fun _ => ih).trans and_assoc.symm

/-- Declared schemas show everything. -/
theorem startsAll_of_declared (used : UsedFields) (h : ∀ id, r.initial.find? id = none)
    (steps : List Step) : StartsAll used .all r steps := by
  induction steps generalizing r with
  | nil => trivial
  | cons s rest ih =>
    refine ⟨⟨fun _ => true, ?_, fun _ _ _ => rfl⟩, ih fun id => ?_⟩
    · rw [h, Schema.prune_all]
      rfl
    · exact (congrArg (·.find? id) (initial_settleAll r [s])).trans (h id)

theorem settleAll_grows (used : UsedFields) (catalog : Catalog p.schemas) (arena : Arena p.steps)
    {steps : List Step} (hsteps : ∀ s ∈ steps, s ∈ p.steps)
    (remembers : r.restrictions.Remembers base p.schemas) (starts : StartsAll used base r steps) :
    r.restrictions.Grows base p.schemas (settleAll used r steps).restrictions := by
  induction steps generalizing r with
  | nil => exact .refl remembers
  | cons s rest ih =>
    have spec := settleStep_spec used catalog arena (hsteps s (List.mem_cons_self ..)) remembers
      starts.1
    exact spec.grows.trans
      (ih (fun u hu => hsteps u (List.mem_cons_of_mem _ hu)) spec.grows.remembers starts.2)

theorem find?_settleAll_of_ne {id : StepId} {steps : List Step} (h : ∀ s ∈ steps, s.id ≠ id) :
    (settleAll used r steps).schemas.find? id = r.schemas.find? id := by
  induction steps generalizing r with
  | nil => rfl
  | cons s rest ih =>
    refine (ih fun u hu => h u (List.mem_cons_of_mem _ hu)).trans ?_
    exact find?_settleStep_of_ne r (h s (List.mem_cons_self ..)).symm

/-- Steps that pass records on keep what was kept. -/
theorem settleAll_keeps_of_passed (used : UsedFields) (catalog : Catalog p.schemas)
    (arena : Arena p.steps) {steps : List Step} (hsteps : ∀ s ∈ steps, s ∈ p.steps)
    (passed : ∀ s ∈ steps, s.operation.passed?.isSome)
    (remembers : r.restrictions.Remembers base p.schemas) (starts : StartsAll used base r steps) :
    AgreeOn p.schemas (settleAll used r steps).restrictions.keeps r.restrictions.keeps := by
  induction steps generalizing r with
  | nil => exact fun _ _ _ _ => rfl
  | cons s rest ih =>
    have spec := settleStep_spec used catalog arena (hsteps s (List.mem_cons_self ..)) remembers
      starts.1
    have later := ih (fun u hu => hsteps u (List.mem_cons_of_mem _ hu))
      (fun u hu => passed u (List.mem_cons_of_mem _ hu)) spec.grows.remembers starts.2
    intro t ht x hx
    refine ((later t ht x hx).trans (spec.keeps t ht x hx)).trans ?_
    have passes := passed s (List.mem_cons_self ..)
    unfold keepsAfter
    cases hop : s.operation with
    | filter | limit => simp
    | _ =>
      rw [hop] at passes
      cases passes

theorem find?_replayNested (r : Resolution) (id : StepId) : r.replayNested.schemas.find? id =
    (r.schemas.find? id).map r.restrictions.updateColumns :=
  StepMap.find?_map ..

/-- A step of the order shows, when all is resolved, what was kept of its record type when it was
its turn; what is nested in it shows what is kept at the end. -/
theorem find?_replayNested_settleAll (catalog : Catalog p.schemas) (arena : Arena p.steps)
    {steps pre post : List Step} (ordered : Ordered p used steps) (he : steps = pre ++ s :: post)
    (remembers : r.restrictions.Remembers base p.schemas)
    (starts : StartsAll used base r steps) :
    (settleAll used r steps).replayNested.schemas.find? s.id =
      some (s.schema.prune ((settleAll used r (pre ++ [s])).restrictions.keeps s.schema.name)
        ((settleAll used r steps).restrictions.keepsOver base)) := by
  subst he
  have hs := ordered.mem s (by simp)
  have split : pre ++ s :: post = (pre ++ [s]) ++ post := by simp
  have before : ∀ u ∈ pre, u ∈ p.steps := fun u hu => ordered.mem u (by simp [hu])
  have later : ∀ u ∈ post, u ∈ p.steps := fun u hu => ordered.mem u (by simp [hu])
  have others := ordered.ids_ne arena rfl
  obtain ⟨startsBefore, startsHere, startsLater⟩ := startsAll_append.mp starts
  have front := settleAll_grows used catalog arena before remembers startsBefore
  have spec := settleStep_spec used catalog arena hs front.remembers startsHere
  have back := settleAll_grows used catalog arena later spec.grows.remembers startsLater
  rw [← settleAll_concat] at spec back
  rw [← settleAll_append, ← split] at back
  obtain ⟨inner, schema, covers⟩ := spec.schema
  have found : (settleAll used r (pre ++ s :: post)).schemas.find? s.id =
      (settleAll used r (pre ++ [s])).schemas.find? s.id := by
    rw [split, settleAll_append, find?_settleAll_of_ne others]
  rw [find?_replayNested, found, schema, Option.map_some,
    Restrictions.updateColumns_prune catalog (Pipeline.schema_mem arena hs) back.remembers
      (back.covers covers)]

/-! ### From the declared schemas -/

/-- The state in which the steps of a list, resolved from a fresh start, leave the resolution. -/
abbrev after (used : UsedFields) (steps : List Step) : Resolution := settleAll used fresh steps

/-- Resolved are the steps of the list. -/
theorem contains_after (used : UsedFields) (steps : List Step) (id : StepId) :
    (after used steps).replayNested.schemas.contains id = steps.any (·.id == id) := by
  have settled := @contains_settleAll used fresh steps id
  rw [StepMap.contains] at settled ⊢
  rw [find?_replayNested, Option.isSome_map, settled]
  rfl

theorem contains_after_of_mem {steps : List Step} (hs : s ∈ steps) :
    (after used steps).replayNested.schemas.contains s.id = true := by
  rw [contains_after]
  exact List.any_eq_true.mpr ⟨s, hs, beq_iff_eq.mpr rfl⟩

/-- What is resolved is the schema of one of the steps. -/
theorem exists_of_find? {steps : List Step} {id : StepId} {shown : Schema}
    (h : (after used steps).replayNested.schemas.find? id = some shown) :
    ∃ s ∈ steps, s.id = id := by
  have found : (after used steps).replayNested.schemas.contains id = true :=
    Option.isSome_of_eq_some h
  rw [contains_after] at found
  obtain ⟨s, hs, hid⟩ := List.any_eq_true.mp found
  exact ⟨s, hs, beq_iff_eq.mp hid⟩

theorem startingFrom_remembers (initial : StepMap Schema) (base : ColumnSet)
    (schemas : List Schema) : (startingFrom initial).restrictions.Remembers base schemas := by
  intro t _ columns h
  cases h

theorem fresh_starts (used : UsedFields) (steps : List Step) : StartsAll used .all fresh steps :=
  startsAll_of_declared used (fun _ => rfl) steps

theorem Ordered.grows (catalog : Catalog p.schemas) (arena : Arena p.steps) {steps : List Step}
    (h : Ordered p used steps) :
    fresh.restrictions.Grows .all p.schemas (after used steps).restrictions :=
  settleAll_grows used catalog arena h.mem (startingFrom_remembers _ _ _) (fresh_starts used steps)

theorem Ordered.settled (catalog : Catalog p.schemas) (arena : Arena p.steps) {steps : List Step}
    (h : Ordered p used (steps ++ [s])) :
    Settled p used .all (after used steps) s (after used (steps ++ [s])) := by
  have hs := h.mem s (List.mem_append_right _ (List.mem_singleton_self s))
  have starts := (startsAll_append.mp (fresh_starts used (steps ++ [s]))).2.1
  have spec := settleStep_spec used catalog arena hs (h.front.grows catalog arena).remembers starts
  rwa [← settleAll_concat] at spec

/-- What is kept after the last step of an order. -/
theorem Ordered.keeps_concat (catalog : Catalog p.schemas) (arena : Arena p.steps)
    {steps : List Step} (h : Ordered p used (steps ++ [s])) :
    AgreeOn p.schemas (after used (steps ++ [s])).restrictions.keeps
      (keepsAfter used (after used steps) s) :=
  (h.settled catalog arena).keeps

/-- What a step of the order shows when all is resolved. -/
theorem Ordered.replayed (catalog : Catalog p.schemas) (arena : Arena p.steps)
    {steps pre post : List Step} (ordered : Ordered p used steps) (he : steps = pre ++ s :: post) :
    (after used steps).replayNested.schemas.find? s.id =
      some (s.schema.prune ((after used (pre ++ [s])).restrictions.keeps s.schema.name)
        (after used steps).restrictions.keeps) := by
  rw [← Restrictions.keepsOver_all]
  exact find?_replayNested_settleAll catalog arena ordered he (startingFrom_remembers _ _ _)
    (fresh_starts used _)

/-- A step of the order has the columns that were kept when it was resolved. -/
theorem names_after (used : UsedFields) (catalog : Catalog p.schemas) (arena : Arena p.steps)
    {pre post : List Step} (ordered : Ordered p used (pre ++ s :: post)) :
    ((after used (pre ++ s :: post)).schemas.find? s.id).map Schema.names =
      some (s.schema.names.filter
        ((after used (pre ++ [s])).restrictions.keeps s.schema.name)) := by
  have split : pre ++ s :: post = (pre ++ [s]) ++ post := by simp
  obtain ⟨inner, schema, -⟩ := (ordered.upto.settled catalog arena).schema
  rw [split, after, settleAll_append, find?_settleAll_of_ne (ordered.ids_ne arena rfl), schema]
  simp

end RecordFlow.Resolution
