import RecordFlow.Proofs.Pruning.Losses

/-! What the steps of a record type show that is used in full. Reads do not narrow such a type, but
joins do: what one of them does not provide is missing from it and from every later step of the same
record type. Main statement: nothing else is missing, so a step shows what it is meant to show just
if no earlier join of its record type fails to provide it. -/

namespace RecordFlow.Plan

open Resolution (after Ordered keepsAfter)

/-- The columns of a record type used in full that a step is meant to show: those that a join
provides, and all of any other step. -/
def meant (plan : Plan) (p : Pipeline) (s : Step) : List String :=
  match s.operation with
  | .joinLeft _ _ _ => s.seed.fieldNames.filter (· ∈ plan.provided p s)
  | _ => s.seed.fieldNames

open Classical in
/-- What a step of a record type used in full shows, after the steps `earlier`. -/
structure ShowsUndropped (plan : Plan) (p : Pipeline) (earlier : List Step) (s : Step) : Prop where
  /-- The columns that no join of the record type, itself or earlier, drops. -/
  names : (plan.schemaOf s).names = s.seed.fieldNames.filter fun x =>
    ∀ j ∈ earlier ++ [s], j.seed.name = s.seed.name → ¬ plan.Drops p j x
  /-- These are what it is meant to show just if no earlier join drops any of that, and if a join
  that provides nothing has nothing left to show. -/
  meant : (plan.schemaOf s).names = plan.meant p s ↔
    (∀ x ∈ plan.meant p s, ∀ j ∈ earlier, j.seed.name = s.seed.name → ¬ plan.Drops p j x) ∧
      ((∃ source key joins, s.operation = .joinLeft source key joins) → plan.provided p s = [] →
        ∀ x ∈ s.seed.fieldNames, ∃ j ∈ earlier, j.seed.name = s.seed.name ∧ plan.Drops p j x)

variable {p : Pipeline} {used : UsedFields} {t s : Step}

/-- Of a record type used in full a step keeps what was kept before, unless it is a join that drops
it. -/
theorem keepsAfter_iff (catalog : Schema.Catalog p.schemas) (arena : Arena p.steps)
    (ht : t ∈ p.steps) {pre post : List Step} (he : visited used p t = pre ++ s :: post)
    {name : String} (full : used.isUnrestricted name = true) (x : String) :
    keepsAfter used (after used pre) s name x = true ↔
      (after used pre).restrictions.keeps name x = true ∧
        (s.seed.name = name → ¬ (pruned used p t).Drops p s x) := by
  have hs := (visited_spec used arena ht).ordered.mem s (by simp [he])
  have hname := Pipeline.schema_name arena hs
  by_cases hn : s.seed.name = name
  · subst hn
    -- No read is narrowed, so that only joins take columns and nothing is given back.
    have narrows (fields : List String) : ¬ Resolution.NarrowsTo used s fields := by
      rintro ⟨-, limited, -⟩
      rw [UsedFields.fieldsOf?_eq_none.mpr (.inl full)] at limited
      cases limited
    rw [← hname, Resolution.keepsAfter_self, takes_pruned catalog arena ht he]
    simp [Resolution.GivesBack, Takes, narrows]
  · rw [Resolution.keepsAfter_of_ne fun h => hn (h.trans hname).symm]
    simp [hn]

/-- Of a record type used in full what is kept along the order is what no join on the way drops. -/
theorem keeps_after_iff (catalog : Schema.Catalog p.schemas) (arena : Arena p.steps)
    (ht : t ∈ p.steps) {u : Schema} (hu : u ∈ p.schemas) (full : used.isUnrestricted u.name = true)
    {x : String} (hx : x ∈ u.names) :
    ∀ steps pre post, visited used p t = pre ++ steps ++ post →
      ((after used (pre ++ steps)).restrictions.keeps u.name x = true ↔
        (after used pre).restrictions.keeps u.name x = true ∧
          ∀ j ∈ steps, j.seed.name = u.name → ¬ (pruned used p t).Drops p j x)
  | [], pre, post, _ => by simp
  | s :: steps, pre, post, he => by
    have he' : visited used p t = pre ++ s :: (steps ++ post) := he.trans (by simp)
    have ordered := (visited_spec used arena ht).ordered
    have front : Ordered p used (pre ++ [s]) := (he' ▸ ordered).upto
    have rest := keeps_after_iff catalog arena ht hu full hx steps (pre ++ [s]) post
      (he.trans (by simp))
    rw [List.append_assoc, List.singleton_append] at rest
    rw [rest, front.keeps_concat catalog arena u hu x hx,
      keepsAfter_iff catalog arena ht he' full x, List.forall_mem_cons, and_assoc]

theorem filter_eq_filter_iff {α : Type} {P Q : α → Bool} {xs : List α} :
    xs.filter P = xs.filter Q ↔ ∀ x ∈ xs, P x = Q x := by
  refine ⟨fun h x hx => ?_, List.filter_congr⟩
  rw [Bool.eq_iff_iff]
  have : x ∈ xs.filter P ↔ x ∈ xs.filter Q := by rw [h]
  simpa [hx] using this

open Classical in
/-- Steps whose record type is used in full show what no join of their record type drops. -/
theorem showsUndropped_of_unrestricted (built : p.Built) (consistent : p.Consistent)
    (ht : t ∈ p.steps) :
    ∃ used plan, UsedFields.collect p t.id = .ok used ∧ Plan.build p t.id {} = .ok plan ∧
      ∀ earlier s later, visited used p t = earlier ++ s :: later →
        used.isUnrestricted s.seed.name = true → plan.ShowsUndropped p earlier s := by
  have arena := built.arena
  have catalog := consistent.catalog arena
  obtain ⟨used, hused, -⟩ := UsedFields.collect_spec arena ht
  refine ⟨used, pruned used p t, hused, build_pruned arena ht hused, fun pre s post he full => ?_⟩
  have hs := (visited_spec used arena ht).ordered.mem s (by simp [he])
  have names : ((pruned used p t).schemaOf s).names = s.seed.fieldNames.filter (fun x =>
      ∀ j ∈ pre ++ [s], j.seed.name = s.seed.name → ¬ (pruned used p t).Drops p j x) := by
    rw [names_schemaOf_pruned used catalog arena ht he]
    refine List.filter_congr fun x hx => ?_
    have hu := Pipeline.schema_mem arena hs
    have hname := Pipeline.schema_name arena hs
    have hx' : x ∈ s.schema.names := by rwa [Pipeline.schema_names arena hs]
    have law := keeps_after_iff catalog arena ht hu (hname ▸ full) hx' (pre ++ [s]) [] post
      (by simp [he])
    rw [hname, List.nil_append] at law
    rw [Bool.eq_iff_iff, law, decide_eq_true_iff, and_iff_right]
    exact Restrictions.keeps_of_find?_eq_none rfl x
  refine ⟨names, ?_⟩
  have last (x : String) :
      (∀ j ∈ pre ++ [s], j.seed.name = s.seed.name → ¬ (pruned used p t).Drops p j x) ↔
        (∀ j ∈ pre, j.seed.name = s.seed.name → ¬ (pruned used p t).Drops p j x) ∧
          ¬ (pruned used p t).Drops p s x := by
    rw [List.forall_mem_append, List.forall_mem_singleton]
    exact and_congr_right fun _ => ⟨fun h => h rfl, fun h _ => h⟩
  simp only [names, last, meant]
  cases hop : s.operation with
  | joinLeft source key joins =>
    -- Of what earlier joins leave, the join shows what it provides, or all if it provides nothing.
    have dropped (x : String) :
        (∃ j ∈ pre, j.seed.name = s.seed.name ∧ (pruned used p t).Drops p j x) ↔
          ¬ ∀ j ∈ pre, j.seed.name = s.seed.name → ¬ (pruned used p t).Drops p j x := by
      simp
    simp only [filter_eq_filter_iff, decide_eq_decide, not_drops_iff hop, dropped, List.mem_filter,
      decide_eq_true_eq]
    constructor
    · intro same
      refine ⟨fun x ⟨hx, provides⟩ => ((same x hx).mpr provides).1, fun _ none x hx keeps => ?_⟩
      have provides := (same x hx).mp ⟨keeps, .inl none⟩
      rw [none] at provides
      exact List.not_mem_nil provides
    · intro h x hx
      obtain ⟨keeps, nothing⟩ := h
      refine ⟨fun ⟨left, provides⟩ => ?_, fun provides => ⟨keeps x ⟨hx, provides⟩, .inr provides⟩⟩
      exact provides.resolve_left fun none => nothing ⟨source, key, joins, rfl⟩ none x hx left
  | _ =>
    have never (x : String) : ¬ (pruned used p t).Drops p s x := by simp [Drops, hop]
    simp [List.filter_eq_self, never]

def left : RecordType := ⟨"left", [⟨"id", .int64, false⟩]⟩

def right : RecordType := ⟨"right", [⟨"id", .int64, false⟩]⟩

def joined : RecordType :=
  ⟨"joined", [⟨"id", .int64, false⟩, ⟨"match", .struct right, true⟩, ⟨"note", .string, true⟩]⟩

def readLeft : Step := ⟨⟨1⟩, left, left.schema, .unknown, .readCsv "left"⟩

def readRight : Step := ⟨⟨2⟩, right, right.schema, .unknown, .readCsv "right"⟩

def joinRight : Step := ⟨⟨3⟩, joined, joined.schema, .unknown,
  .joinLeft ⟨1⟩ (·.value "id") [⟨"match", .single, [⟨2⟩], (·.value "id")⟩]⟩

/-- Adds a note to what is joined. -/
def annotate : Step := ⟨⟨4⟩, joined, joined.schema, .unknown,
  .map ⟨3⟩ fun r => r.set "note" (.text "new")⟩

def annotated : Pipeline := ⟨[annotate, joinRight, readRight, readLeft]⟩

theorem sides_built : Pipeline.Built ⟨[readRight, readLeft]⟩ := by
  have first : Pipeline.Built ⟨[readLeft]⟩ :=
    @Pipeline.Built.push _ ⟨1⟩ (.readCsv (.struct left) "left") _ .empty (by simp) rfl
  exact @Pipeline.Built.push _ ⟨2⟩ (.readCsv (.struct right) "right") _ first
    (by simp [readLeft]) rfl

theorem joinRight_built : Pipeline.Built ⟨[joinRight, readRight, readLeft]⟩ :=
  @Pipeline.Built.push _ ⟨3⟩ (.joinLeft ⟨1⟩ (.struct joined) (·.value "id")
    [⟨"match", "right_single", .step ⟨2⟩, some (·.value "id")⟩] .unknown) _ sides_built
    (by simp [readLeft, readRight]) rfl

theorem annotated_built : annotated.Built :=
  @Pipeline.Built.push _ ⟨4⟩ (.map ⟨3⟩ (.struct joined) _ .unknown) _ joinRight_built
    (by simp [readLeft, readRight, joinRight]) rfl

theorem annotated_consistent : annotated.Consistent := by decide

theorem annotate_showsUndropped : annotated.Built ∧ annotated.Consistent ∧
    ∃ used plan, UsedFields.collect annotated annotate.id = .ok used ∧
      Plan.build annotated annotate.id {} = .ok plan ∧
      plan.ShowsUndropped annotated [readLeft, readRight, joinRight] annotate := by
  obtain ⟨used, plan, hused, hplan, law⟩ := showsUndropped_of_unrestricted annotated_built
    annotated_consistent (List.mem_cons_self ..)
  refine ⟨annotated_built, annotated_consistent, used, plan, hused, hplan, ?_⟩
  have found : UsedFields.collect annotated annotate.id =
      .ok ⟨⟨["joined", "left", "right"]⟩, ⟨[]⟩⟩ := rfl
  obtain rfl := Except.ok.inj (hused.symm.trans found)
  exact law _ _ [] rfl (by decide)

/-- The note is used in full as all of its record type is, yet no column holds it: the join before
drops it. -/
theorem annotate_loses_note :
    (UsedFields.collect annotated annotate.id).map
      (·.isUnrestricted annotate.seed.name) = .ok true ∧
      annotate.seed.fieldNames = ["id", "match", "note"] ∧
      (Plan.build annotated annotate.id {}).map (fun plan => (plan.schemaOf annotate).names) =
        .ok ["id", "match"] :=
  ⟨rfl, rfl, rfl⟩

end RecordFlow.Plan
