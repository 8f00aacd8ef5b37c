import Mathlib.Data.List.Induction
import RecordFlow.Proofs.Pruning.Plan

/-! What becomes of the columns of a record type along an order of steps. Reads that are narrowed to
used fields and joins take columns away, and a read that comes later may give a column back. Main
statement: a column is kept just if no step took it, or a later read gave it back. -/

namespace RecordFlow

def Step.IsJoin (s : Step) : Prop := ∃ source key joins, s.operation = .joinLeft source key joins

namespace Resolution

open Schema (Catalog AgreeOn)

variable {p : Pipeline} {used : UsedFields} {r : Resolution} {s u : Step} {steps : List Step}
  {type x : String} {fields : List String}

/-- A read that shows the used fields of its record type and no others. -/
def NarrowsTo (used : UsedFields) (s : Step) (fields : List String) : Prop :=
  s.source? = none ∧ used.fieldsOf? s.seed = some fields ∧ fields ≠ []

/-- A read that is narrowed to other columns, or a join that provides others, takes a column from
its record type. -/
def Takes (used : UsedFields) (r : Resolution) (s : Step) (x : String) : Prop :=
  (∃ fields, NarrowsTo used s fields ∧ x ∉ fields) ∨
    ∃ source key joins, s.operation = .joinLeft source key joins ∧
      provided used r source s ≠ [] ∧ x ∉ provided used r source s

def GivesBack (used : UsedFields) (s : Step) (x : String) : Prop :=
  ∃ fields, NarrowsTo used s fields ∧ x ∈ fields

/-- Some step takes the column from the record type, and no later one gives it back. -/
def Lost (used : UsedFields) (takes : List Step → Step → String → Prop) (steps : List Step)
    (type x : String) : Prop :=
  ∃ pre s post, steps = pre ++ s :: post ∧ s.seed.name = type ∧ takes pre s x ∧
    ∀ u ∈ post, u.seed.name = type → ¬ GivesBack used u x

theorem NarrowsTo.unique {fields' : List String} (h : NarrowsTo used s fields)
    (h' : NarrowsTo used u fields') (same : s.seed = u.seed) : fields = fields' := by
  have found := h.2.1
  rw [same, h'.2.1] at found
  exact (Option.some.inj found).symm

theorem NarrowsTo.not_isJoin (h : NarrowsTo used s fields) : ¬ s.IsJoin := by
  rintro ⟨source, key, joins, hop⟩
  have read := h.1
  rw [Step.source?, hop] at read
  cases read

theorem GivesBack.not_takes (h : GivesBack used s x) : ¬ Takes used r s x := by
  obtain ⟨fields, narrows, hx⟩ := h
  rintro (⟨fields', narrows', hx'⟩ | ⟨source, key, joins, hop, -⟩)
  · exact hx' (narrows.unique narrows' rfl ▸ hx)
  · exact narrows.not_isJoin ⟨source, key, joins, hop⟩

/-! ### One step -/

theorem keepsAfter_of_ne (h : type ≠ s.schema.name) :
    keepsAfter used r s type x = r.restrictions.keeps type x := by
  simp only [keepsAfter, if_neg h]

theorem takes_join {source : StepId} {key : Record → Value} {joins : List Join}
    (hop : s.operation = .joinLeft source key joins) : Takes used r s x ↔
      provided used r source s ≠ [] ∧ x ∉ provided used r source s := by
  constructor
  · rintro (⟨fields, narrows, -⟩ | ⟨source', key', joins', hop', h⟩)
    · exact absurd ⟨source, key, joins, hop⟩ narrows.not_isJoin
    · cases hop.symm.trans hop'
      exact h
  · exact fun h => .inr ⟨source, key, joins, hop, h⟩

theorem exists_narrowsTo_iff (read : s.source? = none) (hf : used.fieldsOf? s.seed = some fields)
    (hn : fields ≠ []) {P : List String → Prop} :
    (∃ fields, NarrowsTo used s fields ∧ P fields) ↔ P fields := by
  have narrows : NarrowsTo used s fields := ⟨read, hf, hn⟩
  exact ⟨fun ⟨_, narrows', h⟩ => narrows.unique narrows' rfl ▸ h, fun h => ⟨fields, narrows, h⟩⟩

/-- Of its own record type a step keeps what it gives back, and what was kept and it does not
take. -/
theorem keepsAfter_self : keepsAfter used r s s.schema.name x = true ↔
    GivesBack used s x ∨
      r.restrictions.keeps s.schema.name x = true ∧ ¬ Takes used r s x := by
  unfold keepsAfter
  rw [if_pos rfl]
  cases hop : s.operation with
  | empty | readCsv | readParquet =>
    have read : s.source? = none := by rw [Step.source?, hop]; rfl
    cases hf : used.fieldsOf? s.seed with
    | none => simp [GivesBack, Takes, NarrowsTo, hf, hop]
    | some fields =>
      cases fields with
      | nil => simp [GivesBack, Takes, NarrowsTo, hf, hop]
      | cons field rest =>
        have hn := List.cons_ne_nil field rest
        have gives : GivesBack used s x ↔ x ∈ field :: rest := exists_narrowsTo_iff read hf hn
        have takes : Takes used r s x ↔ x ∉ field :: rest := by
          simp only [Takes, hop, reduceCtorEq, false_and, exists_false, or_false]
          exact exists_narrowsTo_iff read hf hn
        rw [gives, takes, decide_eq_true_iff]
        tauto
  | joinLeft source key joins =>
    have gives : ¬ GivesBack used s x := by
      rintro ⟨fields, narrows, -⟩
      exact narrows.not_isJoin ⟨source, key, joins, hop⟩
    rw [takes_join hop, Bool.and_eq_true, Bool.or_eq_true, List.isEmpty_iff, decide_eq_true_iff]
    tauto
  | filter | map | flatMap | aggregate | limit =>
    have reads : ¬ s.source? = none := by rw [Step.source?, hop]; exact Option.some_ne_none _
    simp [GivesBack, Takes, NarrowsTo, reads, hop]

/-! ### All steps -/

/-- What happened at some step and was not undone since, after one more step. -/
theorem exists_split_concat (steps : List Step) (s : Step) (happens : List Step → Step → Prop)
    (stays : Step → Prop) :
    (∃ pre u post, steps ++ [s] = pre ++ u :: post ∧ happens pre u ∧ ∀ w ∈ post, stays w) ↔
      happens steps s ∨
        (∃ pre u post, steps = pre ++ u :: post ∧ happens pre u ∧ ∀ w ∈ post, stays w) ∧
          stays s := by
  constructor
  · rintro ⟨pre, u, post, he, happened, stayed⟩
    rcases concat_eq_append_cons he with ⟨rfl, rfl, -⟩ | ⟨rest, rfl, rfl⟩
    · exact .inl happened
    · exact .inr ⟨⟨pre, u, rest, rfl, happened, fun w hw => stayed w (by simp [hw])⟩,
        stayed s (by simp)⟩
  · rintro (happened | ⟨⟨pre, u, post, rfl, happened, stayed⟩, last⟩)
    · exact ⟨steps, s, [], rfl, happened, by simp⟩
    · refine ⟨pre, u, post ++ [s], by simp, happened, fun w hw => ?_⟩
      rcases List.mem_append.mp hw with hw | hw
      · exact stayed w hw
      · rw [List.mem_singleton.mp hw]
        exact last

theorem lost_concat {takes : List Step → Step → String → Prop} :
    Lost used takes (steps ++ [s]) type x ↔
      s.seed.name = type ∧ takes steps s x ∨
        Lost used takes steps type x ∧ (s.seed.name = type → ¬ GivesBack used s x) := by
  simpa only [Lost, and_assoc] using exists_split_concat steps s
    (fun pre u => u.seed.name = type ∧ takes pre u x)
    (fun u => u.seed.name = type → ¬ GivesBack used u x)

theorem Ordered.keeps_iff (catalog : Catalog p.schemas) (arena : Arena p.steps)
    (ordered : Ordered p used steps) {t : Schema} (ht : t ∈ p.schemas) (hx : x ∈ t.names) :
    (after used steps).restrictions.keeps t.name x = true ↔
      ¬ Lost used (fun pre => Takes used (after used pre)) steps t.name x := by
  induction steps using List.reverseRecOn with
  | nil => 
    refine iff_of_true rfl ?_
    rintro ⟨pre, s, post, he, -⟩
    simp at he
  | append_singleton steps s ih =>
    have hs := ordered.mem s (by simp)
    have hname := Pipeline.schema_name arena hs
    rw [ordered.keeps_concat catalog arena t ht x hx, lost_concat]
    by_cases same : t.name = s.schema.name
    · rw [same, keepsAfter_self, ← same, ih ordered.front]
      have gives : GivesBack used s x → ¬ Takes used (after used steps) s x := GivesBack.not_takes
      simp only [same, hname, true_and]
      tauto
    · have other : s.seed.name ≠ t.name := fun h => same (h.symm.trans hname.symm)
      rw [keepsAfter_of_ne same, ih ordered.front]
      simp [other]

/-- Once a read was narrowed, no more is kept of its record type than what it was narrowed to. -/
theorem Ordered.mem_of_keeps (consistent : p.Consistent) (arena : Arena p.steps)
    (ordered : Ordered p used steps) (hs : s ∈ steps) (narrows : NarrowsTo used s fields)
    (hx : x ∈ s.schema.names)
    (keeps : (after used steps).restrictions.keeps s.schema.name x = true) : x ∈ fields := by
  have hsp := ordered.mem s hs
  have hname := Pipeline.schema_name arena hsp
  have kept_iff := ordered.keeps_iff (consistent.catalog arena) arena
    (Pipeline.schema_mem arena hsp) hx
  refine Classical.byContradiction fun missing => kept_iff.mp keeps ?_
  obtain ⟨pre, post, rfl⟩ := List.append_of_mem hs
  refine ⟨pre, s, post, rfl, hname.symm, .inl ⟨fields, narrows, missing⟩, ?_⟩
  -- A later read of the record type is narrowed to the same columns.
  rintro u hu htype ⟨fields', narrows', given⟩
  have same : u.seed = s.seed :=
    consistent.seed_eq (ordered.mem u (by simp [hu])) hsp (htype.trans hname)
  exact missing (narrows'.unique narrows same ▸ given)

/-- Without joins of its record type, what is kept once a read is resolved depends on what it is
narrowed to alone. -/
theorem Ordered.keeps_of_read (consistent : p.Consistent) (arena : Arena p.steps)
    (ordered : Ordered p used steps) (hs : s ∈ steps) (read : s.source? = none)
    (alone : ∀ j ∈ steps, j.IsJoin → j.seed.name ≠ s.seed.name) (hx : x ∈ s.schema.names) :
    (after used steps).restrictions.keeps s.schema.name x = true ↔
      ∀ fields, NarrowsTo used s fields → x ∈ fields := by
  refine ⟨fun keeps fields narrows => ordered.mem_of_keeps consistent arena hs narrows hx keeps,
    fun keeps => ?_⟩
  have hsp := ordered.mem s hs
  rw [ordered.keeps_iff (consistent.catalog arena) arena (Pipeline.schema_mem arena hsp) hx]
  rintro ⟨pre, u, post, rfl, htype, takes, -⟩
  have same : u.seed = s.seed := consistent.seed_eq (ordered.mem u (by simp)) hsp
    (htype.trans (Pipeline.schema_name arena hsp))
  rcases takes with ⟨fields, narrows, missing⟩ | ⟨source, key, joins, hop, -⟩
  · exact missing (keeps fields ⟨read, same ▸ narrows.2.1, narrows.2.2⟩)
  · exact alone u (by simp) ⟨source, key, joins, hop⟩ (congrArg RecordType.name same)

/-- The columns that a read shows where no join has its record type. -/
def readNames (used : UsedFields) (s : Step) : List String :=
  match used.fieldsOf? s.seed with
  | none | some [] => s.seed.fieldNames
  | some fields => fields

theorem Ordered.names_of_read (consistent : p.Consistent) (arena : Arena p.steps)
    (ordered : Ordered p used steps) (hs : s ∈ steps) (read : s.source? = none)
    (alone : ∀ j ∈ steps, j.IsJoin → j.seed.name ≠ s.seed.name) :
    s.schema.names.filter ((after used steps).restrictions.keeps s.schema.name) =
      readNames used s := by
  have hsp := ordered.mem s hs
  have keeps (x : String) (hx : x ∈ s.schema.names) :=
    ordered.keeps_of_read consistent arena hs read alone hx
  rw [Pipeline.schema_names arena hsp] at keeps ⊢
  have whole (never : ∀ fields, ¬ NarrowsTo used s fields) : s.seed.fieldNames.filter
      ((after used steps).restrictions.keeps s.schema.name) = s.seed.fieldNames :=
    List.filter_eq_self.mpr fun x hx => (keeps x hx).mpr fun fields h => absurd h (never fields)
  unfold readNames
  cases hf : used.fieldsOf? s.seed with
  | none => exact whole fun fields ⟨_, h, _⟩ => nomatch hf.symm.trans h
  | some fields =>
    cases fields with
    | nil => exact whole fun fields ⟨_, h, hn⟩ => hn (Option.some.inj (h.symm.trans hf))
    | cons field rest =>
      have hn := List.cons_ne_nil field rest
      have narrows : NarrowsTo used s (field :: rest) := ⟨read, hf, hn⟩
      obtain ⟨-, set, -, listed⟩ := UsedFields.fieldsOf?_eq_some.mp hf
      have listed_iff (x : String) (hx : x ∈ s.seed.fieldNames) :
          x ∈ field :: rest ↔ decide (x ∈ set) = true := by
        rw [listed, List.mem_filter, and_iff_right hx]
      simp only [listed]
      refine List.filter_congr fun x hx => ?_
      rw [Bool.eq_iff_iff, ← listed_iff x hx, keeps x hx]
      exact ⟨fun h => h _ narrows, fun h fields' narrows' => narrows'.unique narrows rfl ▸ h⟩

theorem Ordered.names_replayed_of_read (consistent : p.Consistent) (arena : Arena p.steps)
    (ordered : Ordered p used steps) (hs : s ∈ steps) (read : s.source? = none)
    (alone : ∀ j ∈ steps, j.IsJoin → j.seed.name ≠ s.seed.name) {shown : Schema}
    (found : (after used steps).replayNested.schemas.find? s.id = some shown) :
    shown.names = readNames used s := by
  obtain ⟨pre, post, rfl⟩ := List.append_of_mem hs
  have before : ∀ j ∈ pre ++ [s], j ∈ pre ++ s :: post := fun j hj => by
    rw [List.append_cons]
    exact List.mem_append_left _ hj
  rw [ordered.replayed (consistent.catalog arena) arena rfl] at found
  cases found
  rw [Schema.prune_names]
  exact ordered.upto.names_of_read consistent arena (by simp) read fun j hj => alone j (before j hj)

end Resolution

namespace Plan

open Resolution (after Ordered)

variable {p : Pipeline} {used : UsedFields} {t s : Step} {x : String}

/-- What a step takes from its record type, told by the plan. -/
def Takes (plan : Plan) (p : Pipeline) (used : UsedFields) (s : Step) (x : String) : Prop :=
  (∃ fields, Resolution.NarrowsTo used s fields ∧ x ∉ fields) ∨ plan.Drops p s x

/-- Some step takes the column from the record type, and no later one gives it back. -/
def Loses (plan : Plan) (p : Pipeline) (used : UsedFields) (steps : List Step)
    (type x : String) : Prop :=
  Resolution.Lost used (fun _ => plan.Takes p used) steps type x

theorem takes_pruned (catalog : Schema.Catalog p.schemas) (arena : Arena p.steps)
    (ht : t ∈ p.steps) {pre post : List Step} (he : visited used p t = pre ++ s :: post) :
    Resolution.Takes used (after used pre) s x ↔ (pruned used p t).Takes p used s x := by
  refine or_congr_right ?_
  constructor
  · rintro ⟨source, key, joins, hop, provides, missing⟩
    have hsource : s.source? = some source := by rw [Step.source?, hop]; rfl
    rw [provided_pruned catalog arena ht he hsource] at provides missing
    exact ⟨⟨source, key, joins, hop⟩, provides, missing⟩
  · rintro ⟨⟨source, key, joins, hop⟩, provides, missing⟩
    have hsource : s.source? = some source := by rw [Step.source?, hop]; rfl
    rw [← provided_pruned catalog arena ht he hsource] at provides missing
    exact ⟨source, key, joins, hop, provides, missing⟩

/-- A column is kept along the order just if it is not lost. -/
theorem keeps_iff_not_loses (catalog : Schema.Catalog p.schemas) (arena : Arena p.steps)
    (ht : t ∈ p.steps) {steps rest : List Step} (he : visited used p t = steps ++ rest)
    {u : Schema} (hu : u ∈ p.schemas) (hx : x ∈ u.names) :
    (after used steps).restrictions.keeps u.name x = true ↔
      ¬ (pruned used p t).Loses p used steps u.name x := by
  have ordered : Ordered p used steps := (he ▸ (visited_spec used arena ht).ordered).front
  rw [ordered.keeps_iff catalog arena hu hx, not_iff_not]
  have takes {pre post : List Step} {v : Step} (split : steps = pre ++ v :: post) :
      Resolution.Takes used (after used pre) v x ↔ (pruned used p t).Takes p used v x :=
    takes_pruned catalog arena ht (he.trans (by rw [split, List.append_assoc, List.cons_append]))
  constructor <;> rintro ⟨pre, v, post, split, htype, htakes, never⟩
  · exact ⟨pre, v, post, split, htype, (takes split).mp htakes, never⟩
  · exact ⟨pre, v, post, split, htype, (takes split).mpr htakes, never⟩

end Plan

end RecordFlow
