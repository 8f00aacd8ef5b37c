import RecordFlow.Proofs.Pruning.Unrestricted

/-! Steps that are left without columns. Of a read some used field is always left, but a join may
provide none of the columns that its record type still had, and then neither it nor any later step of
that record type shows one. Main statement: a step shows no column just if this has happened, and no
read of the record type was narrowed to used fields since. -/

namespace RecordFlow.Plan

open Resolution (NarrowsTo)

variable {p : Pipeline} {used : UsedFields} {plan : Plan} {s t : Step} {steps : List Step}

/-- A join that drops every column that the steps before it left of its record type, of which there
was one. -/
structure Empties (plan : Plan) (p : Pipeline) (used : UsedFields) (earlier : List Step)
    (j : Step) : Prop where
  left : ∃ x ∈ j.seed.fieldNames, ¬ plan.Loses p used earlier j.seed.name x
  drops : ∀ x ∈ j.seed.fieldNames, plan.Loses p used earlier j.seed.name x ∨ plan.Drops p j x

/-- Some step empties the record type, and no read of it is narrowed later. -/
def Emptied (plan : Plan) (p : Pipeline) (used : UsedFields) (steps : List Step)
    (type : String) : Prop :=
  ∃ pre j post, steps = pre ++ j :: post ∧ j.seed.name = type ∧ plan.Empties p used pre j ∧
    ∀ u ∈ post, u.seed.name = type → ∀ fields, ¬ NarrowsTo used u fields

theorem Empties.not_narrowsTo {earlier : List Step} (h : plan.Empties p used earlier s)
    (fields : List String) : ¬ NarrowsTo used s fields := by
  obtain ⟨x, hx, left⟩ := h.left
  have join : s.IsJoin := ((h.drops x hx).resolve_left left).1
  exact fun narrows => narrows.not_isJoin join

/-- A read that is narrowed shows a field of its record type. -/
theorem exists_givesBack {fields : List String} (narrows : NarrowsTo used s fields) :
    ∃ x ∈ s.seed.fieldNames, Resolution.GivesBack used s x ∧ ¬ plan.Takes p used s x := by
  obtain ⟨x, hx⟩ := List.exists_mem_of_ne_nil fields narrows.2.2
  obtain ⟨-, set, -, listed⟩ := UsedFields.fieldsOf?_eq_some.mp narrows.2.1
  have declared : x ∈ s.seed.fieldNames := (List.mem_filter.mp (listed ▸ hx)).1
  refine ⟨x, declared, ⟨fields, narrows, hx⟩, ?_⟩
  rintro (⟨fields', narrows', missing⟩ | ⟨join, -⟩)
  · exact missing (narrows.unique narrows' rfl ▸ hx)
  · exact narrows.not_isJoin join

theorem emptied_concat {type : String} : plan.Emptied p used (steps ++ [s]) type ↔
    s.seed.name = type ∧ plan.Empties p used steps s ∨
      plan.Emptied p used steps type ∧
        (s.seed.name = type → ∀ fields, ¬ NarrowsTo used s fields) := by
  simpa only [Emptied, and_assoc] using Resolution.exists_split_concat steps s
    (fun pre j => j.seed.name = type ∧ plan.Empties p used pre j)
    (fun u => u.seed.name = type → ∀ fields, ¬ NarrowsTo used u fields)

/-- A step after which no column is left of its record type took the last ones, or found none left
and was not narrowed. -/
theorem all_lost_concat : (∀ x ∈ s.seed.fieldNames,
      plan.Loses p used (steps ++ [s]) s.seed.name x) ↔
    plan.Empties p used steps s ∨
      (∀ x ∈ s.seed.fieldNames, plan.Loses p used steps s.seed.name x) ∧
        ∀ fields, ¬ NarrowsTo used s fields := by
  simp only [Loses, Resolution.lost_concat, true_and, true_implies]
  constructor
  · intro lost
    have unnarrowed (fields : List String) : ¬ NarrowsTo used s fields := by
      intro narrows
      obtain ⟨x, hx, gives, keeps⟩ : ∃ x ∈ s.seed.fieldNames,
          Resolution.GivesBack used s x ∧ ¬ plan.Takes p used s x := exists_givesBack narrows
      exact (lost x hx).elim keeps fun h => h.2 gives
    by_cases before : ∀ x ∈ s.seed.fieldNames, plan.Loses p used steps s.seed.name x
    · exact .inr ⟨before, unnarrowed⟩
    · push Not at before
      refine .inl ⟨before, fun x hx => ?_⟩
      rcases lost x hx with (⟨fields, narrows, -⟩ | drops) | ⟨earlier, -⟩
      · exact absurd narrows (unnarrowed fields)
      · exact .inr drops
      · exact .inl earlier
  · rintro (empties | ⟨before, unnarrowed⟩) x hx
    · refine (empties.drops x hx).elim (fun lost => .inr ⟨lost, ?_⟩) fun drops => .inl (.inr drops)
      rintro ⟨fields, narrows, -⟩
      exact empties.not_narrowsTo fields narrows
    · refine .inr ⟨before x hx, ?_⟩
      rintro ⟨fields, narrows, -⟩
      exact unnarrowed fields narrows

/-- All columns of a record type are lost just if it is emptied. -/
theorem all_lost_iff_emptied {type : RecordType} (declared : type.fieldNames ≠ [])
    (same : ∀ s ∈ steps, s.seed.name = type.name → s.seed = type) :
    (∀ x ∈ type.fieldNames, plan.Loses p used steps type.name x) ↔
      plan.Emptied p used steps type.name := by
  induction steps using List.reverseRecOn with
  | nil =>
    obtain ⟨x, hx⟩ := List.exists_mem_of_ne_nil _ declared
    refine iff_of_false (fun lost => ?_) ?_
    · obtain ⟨pre, s, post, he, -⟩ := lost x hx
      simp at he
    · rintro ⟨pre, j, post, he, -⟩
      simp at he
  | append_singleton steps s ih =>
    have ih := ih fun u hu => same u (List.mem_append_left _ hu)
    rw [emptied_concat, ← ih]
    by_cases here : s.seed.name = type.name
    · obtain rfl : s.seed = type := same s (by simp) here
      simp only [all_lost_concat, true_and, true_implies]
    · simp only [Loses, Resolution.lost_concat, here, false_and, false_or, false_implies, and_true]

/-- A step with declared columns is left without any just if its record type was emptied. -/
theorem columns_eq_nil_iff_emptied (built : p.Built) (consistent : p.Consistent)
    (ht : t ∈ p.steps) :
    ∃ used plan, UsedFields.collect p t.id = .ok used ∧ Plan.build p t.id {} = .ok plan ∧
      ∀ earlier s later, visited used p t = earlier ++ s :: later → s.schema.columns ≠ [] →
        ((plan.schemaOf s).columns = [] ↔
          plan.Emptied p used (earlier ++ [s]) s.seed.name) := by
  have arena := built.arena
  have catalog := consistent.catalog arena
  obtain ⟨used, hused, -⟩ := UsedFields.collect_spec arena ht
  refine ⟨used, pruned used p t, hused, build_pruned arena ht hused,
    fun earlier s later he declared => ?_⟩
  have ordered := (visited_spec used arena ht).ordered
  have hs := ordered.mem s (by simp [he])
  have hname := Pipeline.schema_name arena hs
  have hnames := Pipeline.schema_names arena hs
  have some : s.seed.fieldNames ≠ [] := by
    rw [← hnames, Schema.names]
    exact fun h => declared (List.map_eq_nil_iff.mp h)
  have same : ∀ u ∈ earlier ++ [s], u.seed.name = s.seed.name → u.seed = s.seed := by
    intro u hu h
    refine consistent.seed_eq (ordered.mem u ?_) hs h
    rw [he, List.append_cons]
    exact List.mem_append_left _ hu
  have shows : (((pruned used p t).schemaOf s).columns = [] ↔
      ∀ x ∈ s.seed.fieldNames, (pruned used p t).Loses p used (earlier ++ [s]) s.seed.name x) := by
    rw [← List.map_eq_nil_iff (f := Column.name), ← Schema.names,
      names_schemaOf_pruned used catalog arena ht he, List.filter_eq_nil_iff]
    refine forall₂_congr fun x hx => ?_
    have law := keeps_iff_not_loses catalog arena ht
      (he.trans (List.append_cons ..)) (Pipeline.schema_mem arena hs) (hnames.symm ▸ hx)
    rw [hname] at law
    rw [law, not_not]
  rw [shows, all_lost_iff_emptied some same]

def matched : RecordType := ⟨"matched", [⟨"match", .struct right, true⟩]⟩

def tally : RecordType := ⟨"tally", [⟨"n", .int64, false⟩]⟩

def joinMatches : Step := ⟨⟨3⟩, matched, matched.schema, .unknown,
  .joinLeft ⟨1⟩ (·.value "id") [⟨"match", .single, [⟨2⟩], (·.value "id")⟩]⟩

/-- Gives a record for each one joined and reads nothing of it. -/
def tallyEach : Step := ⟨⟨4⟩, tally, tally.schema, FieldUsage.nothing.and matched [],
  .map ⟨3⟩ fun _ => ⟨[("n", .int 1)]⟩⟩

def tallied : Pipeline := ⟨[tallyEach, joinMatches, readRight, readLeft]⟩

theorem tallied_built : tallied.Built := by
  have joins : Pipeline.Built ⟨[joinMatches, readRight, readLeft]⟩ :=
    @Pipeline.Built.push _ ⟨3⟩ (.joinLeft ⟨1⟩ (.struct matched) (·.value "id")
      [⟨"match", "right_single", .step ⟨2⟩, some (·.value "id")⟩] .unknown) _ sides_built
      (by simp [readLeft, readRight]) rfl
  exact @Pipeline.Built.push _ ⟨4⟩ (.map ⟨3⟩ (.struct tally) _ _) _ joins
    (by simp [readLeft, readRight, joinMatches]) rfl

theorem tallied_consistent : tallied.Consistent := by decide

theorem joinMatches_emptied : tallied.Built ∧ tallied.Consistent ∧ tallyEach ∈ tallied.steps ∧
    joinMatches.schema.columns ≠ [] ∧
    ∃ used plan, UsedFields.collect tallied tallyEach.id = .ok used ∧
      Plan.build tallied tallyEach.id {} = .ok plan ∧
      plan.Emptied tallied used [readLeft, joinMatches] "matched" := by
  have target : tallyEach ∈ tallied.steps := List.mem_cons_self ..
  have declared : joinMatches.schema.columns ≠ [] := by decide
  obtain ⟨used, plan, hused, hplan, law⟩ :=
    columns_eq_nil_iff_emptied tallied_built tallied_consistent target
  refine ⟨tallied_built, tallied_consistent, target, declared, used, plan, hused, hplan, ?_⟩
  cases hused
  cases hplan
  exact (law [readLeft] joinMatches [tallyEach] rfl declared).mp rfl

/-- The join is left without columns: nothing is read of its records, so that its one side is not
performed, and its source has none of its columns. -/
theorem joinMatches_shows_nothing : tallied.Built ∧ tallied.Consistent ∧
    tallyEach ∈ tallied.steps ∧ joinMatches ∈ tallied.steps ∧
    joinMatches.schema.names = ["match"] ∧
    ∃ used plan, UsedFields.collect tallied tallyEach.id = .ok used ∧
      used.fieldsOf? joinMatches.seed = some [] ∧
      Plan.build tallied tallyEach.id {} = .ok plan ∧ plan.needs joinMatches.id = true ∧
      (plan.schemaOf joinMatches).columns = [] :=
  ⟨tallied_built, tallied_consistent, List.mem_cons_self .., by simp [tallied], rfl,
    _, _, rfl, rfl, rfl, rfl, rfl⟩

end RecordFlow.Plan
