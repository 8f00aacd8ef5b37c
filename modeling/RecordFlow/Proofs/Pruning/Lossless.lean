import RecordFlow.Proofs.Pruning.Losses

/-! Plans that lose nothing that is used. Reads are narrowed to used columns, and what is remembered
of a record type is narrowed further by joins alone. Main statement: if no join drops a used column
of its record type, every step of the plan shows the used columns, at every depth. -/

namespace RecordFlow

namespace Plan

open Resolution (after neededInputs Ordered filledColumns)

/-- A function of the run reads the column: it says so, or it says nothing of what it reads. -/
def Reads (plan : Plan) (p : Pipeline) (type column : String) : Prop :=
  ∃ s ∈ p.steps, plan.needs s.id = true ∧
    (s.Declares type column ∨ (s.IsOpaque ∧ ∃ i, p.HasInput s i ∧ i.seed.name = type))

/-- The records that are collected show the column, at some depth. -/
def Shows (plan : Plan) (t : Step) (type column : String) : Prop :=
  ∃ u ∈ (plan.schemaOf t).parts, u.name = type ∧ column ∈ u.names

def Uses (plan : Plan) (p : Pipeline) (t : Step) (type column : String) : Prop :=
  plan.Reads p type column ∨ plan.Shows t type column

/-- No join of the run drops a used column of its record type, and each side that fills one is
performed. -/
def Lossless (plan : Plan) (p : Pipeline) (t : Step) : Prop :=
  ∀ s ∈ p.steps, plan.needs s.id = true → ∀ x ∈ s.seed.fieldNames, plan.Uses p t s.seed.name x →
    ¬ plan.Drops p s x ∧
      ∀ j ∈ s.joins, x ∈ filledColumns j → j.field ∈ (plan.joinsOf s).map (·.field)

open Classical in
/-- The columns that a run uses. -/
noncomputable def used (plan : Plan) (p : Pipeline) (t : Step) : ColumnSet :=
  fun type column => decide (plan.Uses p t type column)

theorem used_eq_true {plan : Plan} {p : Pipeline} {t : Step} {type x : String} :
    plan.used p t type x = true ↔ plan.Uses p t type x := by
  simp only [used, decide_eq_true_eq]

/-- What a run relies on: its plan shows what is used, performs the sides that fill what is used,
and has all that it needs. -/
structure Faithful (plan : Plan) (p : Pipeline) (used kept : ColumnSet) : Prop where
  within : Schema.Within p.schemas used kept
  shows : ∀ s ∈ p.steps, plan.needs s.id = true → ∃ shown,
    plan.schemaOf s = s.schema.prune shown kept ∧
      ∀ x ∈ s.schema.names, used s.schema.name x = true → shown x = true
  performs : ∀ s ∈ p.steps, plan.needs s.id = true → ∃ performed,
    plan.joinsOf s = s.joins.filter performed ∧ ∀ j ∈ s.joins, ∀ x ∈ filledColumns j,
      x ∈ s.schema.names → used s.schema.name x = true → performed j = true
  source : ∀ s ∈ p.steps, plan.needs s.id = true → ∀ i, p.HasSource s i → plan.needs i.id = true
  joined : ∀ s ∈ p.steps, plan.needs s.id = true → ∀ j ∈ plan.joinsOf s, ∀ id ∈ j.sources,
    plan.needs id = true
  declared : ∀ s ∈ p.steps, plan.needs s.id = true → ∀ type x, s.Declares type x →
    used type x = true
  unknown : ∀ s ∈ p.steps, plan.needs s.id = true → s.IsOpaque → ∀ i, p.HasInput s i →
    ∀ x ∈ i.schema.names, used i.schema.name x = true

variable {p : Pipeline} {used : UsedFields} {t s : Step}

/-! ### Needed steps -/

/-- A run needs the steps that are resolved. -/
theorem needs_pruned (arena : Arena p.steps) (ht : t ∈ p.steps) (hs : s ∈ p.steps) :
    (pruned used p t).needs s.id = true ↔ s ∈ visited used p t := by
  have ordered := (visited_spec used arena ht).ordered
  have contains := Resolution.contains_after used (visited used p t) s.id
  rw [← Pipeline.any_id_iff arena ordered.mem hs, ← contains]
  exact Bool.eq_iff_iff.mp (Bool.false_or _)

theorem needs_of_neededInputs (arena : Arena p.steps) (ht : t ∈ p.steps)
    (hs : s ∈ visited used p t) {id : StepId} (hid : id ∈ neededInputs used s) :
    (pruned used p t).needs id = true := by
  have ordered := (visited_spec used arena ht).ordered
  obtain ⟨pre, post, he⟩ := List.append_of_mem hs
  obtain ⟨i, hi, rfl⟩ := (ordered.before pre s post he).2 id hid
  have visited : i ∈ visited used p t := by
    rw [he]
    exact List.mem_append_left _ hi
  exact (needs_pruned arena ht (ordered.mem i visited)).mpr visited

/-! ### Used columns are kept -/

theorem kept_of_shows (catalog : Schema.Catalog p.schemas) (arena : Arena p.steps)
    (ht : t ∈ p.steps) {type x : String} (h : (pruned used p t).Shows t type x) :
    kept used p t type x = true := by
  obtain ⟨u, hu, rfl, hx⟩ := h
  rw [schemaOf_pruned_of_passes used catalog arena ht .refl] at hu
  obtain ⟨w, rfl⟩ : ∃ w : Schema, u = w.restrict (kept used p t) := by
    rcases Schema.mem_parts.mp hu with rfl | hu
    · exact ⟨t.schema, rfl⟩
    · rw [Schema.restrict_eq_prune] at hu
      obtain ⟨w, -, rfl⟩ := Schema.mem_partsAll_prune hu
      exact ⟨w, rfl⟩
  rw [Schema.restrict_names, List.mem_filter] at hx
  rw [Schema.restrict_name]
  exact hx.2

/-- A read is narrowed to no less than what is used. -/
theorem mem_fieldsOf (consistent : p.Consistent) (arena : Arena p.steps) (ht : t ∈ p.steps)
    (follows : used.FollowsPaths p t) (hs : s ∈ visited used p t)
    (read : s.operation.source? = none) {fields : List String}
    (hf : used.fieldsOf? s.seed = some fields) (hn : fields ≠ []) {x : String}
    (hx : x ∈ s.seed.fieldNames) (uses : (pruned used p t).Uses p t s.seed.name x) :
    x ∈ fields := by
  have hsp := (visited_spec used arena ht).ordered.mem s hs
  rcases uses with ⟨f, hfp, needed, reads⟩ | shows
  · have path : p.Reaches t f :=
      reaches_of_visited arena ht ((needs_pruned arena ht hfp).mp needed)
    rcases reads with declares | ⟨silent, i, hi, hname⟩
    · rw [follows.limited s.seed fields hf]
      simp only [List.mem_filter, decide_eq_true_eq]
      exact ⟨hx, f, path, declares⟩
    · have full := (follows.unrestricted s.seed.name).mpr (.inr ⟨f, i, path, silent, hi, hname⟩)
      rw [(follows.unlimited s.seed).mpr (.inl full)] at hf
      cases hf
  · have kept := kept_of_shows (consistent.catalog arena) arena ht shows
    rw [← Pipeline.schema_names arena hsp] at hx
    rw [← Pipeline.schema_name arena hsp] at kept
    have ordered := (visited_spec used arena ht).ordered
    exact ordered.mem_of_keeps consistent arena hs ⟨read, hf, hn⟩ hx kept

/-- Along the order nothing that is used is dropped. -/
theorem keeps_after_of_uses (consistent : p.Consistent) (arena : Arena p.steps) (ht : t ∈ p.steps)
    (follows : used.FollowsPaths p t) (lossless : (pruned used p t).Lossless p t)
    {u : Schema} (hu : u ∈ p.schemas) {x : String} (hx : x ∈ u.names)
    (uses : (pruned used p t).Uses p t u.name x) (pre post : List Step)
    (he : visited used p t = pre ++ post) :
    (after used pre).restrictions.keeps u.name x = true := by
  have catalog := consistent.catalog arena
  refine (keeps_iff_not_loses catalog arena ht he hu hx).mpr ?_
  rintro ⟨front, s, back, split, htype, takes, -⟩
  have hv : s ∈ visited used p t := by simp [he, split]
  have hs := (visited_spec used arena ht).ordered.mem s hv
  have hname := Pipeline.schema_name arena hs
  obtain rfl := catalog.coherent u hu s.schema (Pipeline.schema_mem arena hs)
    (htype.symm.trans hname.symm)
  rw [Pipeline.schema_names arena hs] at hx
  rw [hname] at uses
  rcases takes with ⟨fields, ⟨read, hf, hn⟩, missing⟩ | drops
  · exact missing (mem_fieldsOf consistent arena ht follows hv read hf hn hx uses)
  · exact (lossless s hs ((needs_pruned arena ht hs).mpr hv) x hx uses).1 drops

/-- What a join drops it does not show. -/
theorem not_mem_names_of_drops (catalog : Schema.Catalog p.schemas) (arena : Arena p.steps)
    (ht : t ∈ p.steps) (hs : s ∈ visited used p t) {x : String}
    (drops : (pruned used p t).Drops p s x) : x ∉ ((pruned used p t).schemaOf s).names := by
  have hsp := (visited_spec used arena ht).ordered.mem s hs
  obtain ⟨pre, post, he⟩ := List.append_of_mem hs
  intro shown
  rw [names_schemaOf_pruned used catalog arena ht he, ← Pipeline.schema_names arena hsp,
    ← Pipeline.schema_name arena hsp, List.mem_filter] at shown
  have split : visited used p t = (pre ++ [s]) ++ post := by simp [he]
  refine (keeps_iff_not_loses catalog arena ht split (Pipeline.schema_mem arena hsp) shown.1).mp
    shown.2 ?_
  exact ⟨pre, s, [], rfl, (Pipeline.schema_name arena hsp).symm, .inr drops, by simp⟩

/-- No used column is dropped just if all steps of the run show what is used of their record
types. -/
theorem lossless_iff (consistent : p.Consistent) (arena : Arena p.steps) (ht : t ∈ p.steps)
    (follows : used.FollowsPaths p t) : (pruned used p t).Lossless p t ↔
      ∀ s ∈ p.steps, (pruned used p t).needs s.id = true → ∀ x ∈ s.seed.fieldNames,
        (pruned used p t).Uses p t s.seed.name x → x ∈ ((pruned used p t).schemaOf s).names ∧
          ∀ j ∈ s.joins, x ∈ filledColumns j →
            j.field ∈ ((pruned used p t).joinsOf s).map (·.field) := by
  have catalog := consistent.catalog arena
  constructor
  · intro lossless s hs needed x hx uses
    refine ⟨?_, (lossless s hs needed x hx uses).2⟩
    obtain ⟨pre, post, he⟩ := List.append_of_mem ((needs_pruned arena ht hs).mp needed)
    have hname := Pipeline.schema_name arena hs
    have hx' : x ∈ s.schema.names := by rwa [Pipeline.schema_names arena hs]
    rw [names_schemaOf_pruned used catalog arena ht he, ← hname]
    exact List.mem_filter.mpr ⟨hx, keeps_after_of_uses consistent arena ht follows lossless
      (Pipeline.schema_mem arena hs) hx' (hname ▸ uses) (pre ++ [s]) post (by simp [he])⟩
  · intro shows s hs needed x hx uses
    obtain ⟨shown, performed⟩ := shows s hs needed x hx uses
    exact ⟨fun drops => not_mem_names_of_drops catalog arena ht
      ((needs_pruned arena ht hs).mp needed)
      drops shown, performed⟩

/-- A plan that loses nothing is one to rely on. -/
theorem faithful_of_lossless (consistent : p.Consistent) (arena : Arena p.steps) (ht : t ∈ p.steps)
    (follows : used.FollowsPaths p t) (lossless : (pruned used p t).Lossless p t) :
    (pruned used p t).Faithful p ((pruned used p t).used p t) (kept used p t) := by
  have catalog := consistent.catalog arena
  have ordered := (visited_spec used arena ht).ordered
  have visits {s : Step} (hs : s ∈ p.steps) (needed : (pruned used p t).needs s.id = true) :
      s ∈ visited used p t := (needs_pruned arena ht hs).mp needed
  have shows := (lossless_iff consistent arena ht follows).mp lossless
  refine ⟨fun u hu x hx hused => ?_, fun s hs needed => ?_, fun s hs needed => ?_,
    fun s hs needed i hi => ?_, fun s hs needed j hj id hid => ?_,
    fun s hs needed type x declares => ?_,
    fun s hs needed silent i hi x _ => ?_⟩
  · exact keeps_after_of_uses consistent arena ht follows lossless hu hx (used_eq_true.mp hused)
      _ [] (List.append_nil _).symm
  · obtain ⟨pre, post, he⟩ := List.append_of_mem (visits hs needed)
    refine ⟨_, schemaOf_pruned catalog arena ht he, fun x hx hused => ?_⟩
    rw [Pipeline.schema_name arena hs] at hused
    rw [Pipeline.schema_names arena hs] at hx
    have shown := (shows s hs needed x hx (used_eq_true.mp hused)).1
    rw [names_schemaOf_pruned used catalog arena ht he, ← Pipeline.schema_name arena hs] at shown
    exact (List.mem_filter.mp shown).2
  · refine ⟨_, joinsOf_pruned arena ht (visits hs needed), fun j hj x hx hnames hused => ?_⟩
    rw [Pipeline.schema_name arena hs] at hused
    rw [Pipeline.schema_names arena hs] at hnames
    have performed := (shows s hs needed x hnames (used_eq_true.mp hused)).2 j hj hx
    rw [joinsOf_pruned arena ht (visits hs needed)] at performed
    obtain ⟨k, hk, hfield⟩ := List.mem_map.mp performed
    have needs := (List.mem_filter.mp hk).2
    unfold Resolution.isNeeded at needs ⊢
    rwa [hfield] at needs
  · refine needs_of_neededInputs arena ht (visits hs needed) ?_
    simp [neededInputs, hi.2]
  · rw [joinsOf_pruned arena ht (visits hs needed)] at hj
    refine needs_of_neededInputs arena ht (visits hs needed) (List.mem_append_right _ ?_)
    exact List.mem_flatMap.mpr ⟨j, hj, hid⟩
  · exact used_eq_true.mpr (.inl ⟨s, hs, needed, .inl declares⟩)
  · have hip : i ∈ p.steps := (Pipeline.hasInput_iff.mp hi).1
    rw [Pipeline.schema_name arena hip]
    exact used_eq_true.mpr (.inl ⟨s, hs, needed, .inr ⟨silent, i, hi, rfl⟩⟩)

end Plan

end RecordFlow
