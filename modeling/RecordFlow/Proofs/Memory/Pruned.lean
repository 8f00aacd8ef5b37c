import RecordFlow.Proofs.Memory.Simulation
import RecordFlow.Proofs.Pruning.Unrestricted

/-! What is collected with pruning. Main statement: where users keep their promises and no join
drops what is used, pruning changes nothing but the columns of the plan. -/

namespace RecordFlow.Memory

open Pipeline (schema_mem)
open Plan (left right joined readLeft readRight joinRight)
open UsedFields (item readItems)

variable {p : Pipeline} {src : Sources} {t : Step}

theorem eq_map_of_forall₂ {R : Record → Record → Prop} {f : Record → Record}
    {rows rows' : List Record} (h : List.Forall₂ R rows rows')
    (made : ∀ r ∈ rows, ∀ r', R r r' → r = f r') : rows = rows'.map f := by
  induction h with
  | nil => rfl
  | cons first _ ih =>
    rw [List.map_cons, ← made _ (List.mem_cons_self ..) _ first,
      ← ih fun r hr => made r (List.mem_cons_of_mem _ hr)]

/-- Where users keep their promises and the plan loses nothing that is used, pruning changes
nothing: the run collects the records of the full run, in the same order, each shaped by the schema
that the plan has for the target. -/
theorem collect_pruned (built : p.Built) (consistent : p.Consistent)
    (honest : ∀ s ∈ p.steps, s.Honest p) (takes : ∀ s ∈ p.steps, s.ListsTaken p)
    (registers : src.Registers p) (ht : t ∈ p.steps) :
    ∃ plan, Plan.build p t.id {} = .ok plan ∧ (plan.Lossless p t → ∀ rows,
      ((engine src).collect p t.id .pruningDisabled).run = .ok rows →
        ((engine src).collect p t.id {}).run = .ok (rows.map (plan.schemaOf t).conform)) := by
  have arena := built.arena
  have catalog := consistent.catalog arena
  obtain ⟨found, hfound, follows⟩ := UsedFields.collect_spec arena ht
  have hplan := Plan.build_pruned arena ht hfound
  refine ⟨Plan.pruned found p t, hplan, fun lossless rows' hrows' => ?_⟩
  have faithful := Plan.faithful_of_lossless consistent arena ht follows lossless
  rw [Evaluation.collect_eq _ arena ht (Plan.build_disabled arena ht)] at hrows'
  obtain ⟨collected', hcollected', hrows'⟩ := exists_of_bind_ok hrows'
  cases hrows'
  obtain ⟨rows, hrows, alikes⟩ := run_simulates faithful catalog arena registers honest takes ht
    ((Plan.needs_pruned arena ht ht).mpr (Plan.mem_visited found arena ht)) rows' hcollected'
  have schema := Plan.schemaOf_pruned_of_passes found catalog arena ht .refl
  rw [Schema.restrict_eq_prune] at schema
  have same : rows = rows'.map ((Plan.pruned found p t).schemaOf t).conform := by
    refine eq_map_of_forall₂ alikes fun r hr r' alike => ?_
    have shaped := target_shaped consistent arena ht hplan hrows r hr
    rw [schema] at shaped ⊢
    rw [← alike.conform_prune catalog (schema_mem arena ht) fun u hu x hx =>
      Plan.used_eq_true.mpr (.inr ⟨u, schema ▸ hu, rfl, hx⟩), shaped]
  rw [Evaluation.collect_eq _ arena ht hplan, hrows, same]
  rfl

def matched : RecordType := ⟨"matched", [⟨"id", .int64, false⟩, ⟨"match", .struct right, true⟩]⟩

/-- Joins items with their matches, of which it says what it reads. -/
def matchItems : Step := ⟨⟨3⟩, matched, matched.schema,
  (FieldUsage.nothing.and item ["id"]).and right ["id"],
  .joinLeft ⟨1⟩ (·.value "id") [⟨"match", .single, [⟨2⟩], (·.value "id")⟩]⟩

def matching : Pipeline := ⟨[matchItems, readRight, readItems]⟩

def matchTables : Sources where
  tables := [("items", [⟨[("id", .int 7), ("tag", .text "new")]⟩, ⟨[("id", .int 8)]⟩]),
    ("right", [⟨[("id", .int 7)]⟩])]

theorem matching_built : matching.Built := by
  have first : Pipeline.Built ⟨[readItems]⟩ :=
    @Pipeline.Built.push _ ⟨1⟩ (.readCsv (.struct item) "items") _ .empty (by simp) rfl
  have second : Pipeline.Built ⟨[readRight, readItems]⟩ :=
    @Pipeline.Built.push _ ⟨2⟩ (.readCsv (.struct right) "right") _ first (by simp [readItems]) rfl
  exact @Pipeline.Built.push _ ⟨3⟩ (.joinLeft ⟨1⟩ (.struct matched) (·.value "id")
    [⟨"match", "right_single", .step ⟨2⟩, some (·.value "id")⟩] _) _ second
    (by simp [readItems, readRight]) rfl

theorem matching_honest : ∀ s ∈ matching.steps, s.Honest matching := by
  intro s hs
  simp only [matching, List.mem_cons, List.not_mem_nil, or_false] at hs
  rcases hs with rfl | rfl | rfl
  · refine ⟨?_, ?_⟩
    · intro i input
      obtain ⟨hi, hid⟩ := input
      obtain rfl := matching_built.arena.id_injective hi
        (List.mem_of_getElem? (i := 2) rfl : readItems ∈ _) (Option.some.inj hid).symm
      exact fun r => rfl
    · intro j hj i hi hid
      obtain rfl := List.mem_singleton.mp hj
      obtain rfl := matching_built.arena.id_injective hi
        (List.mem_of_getElem? (i := 1) rfl : readRight ∈ _) (List.mem_singleton.mp hid)
      exact fun r => rfl
  · rintro ⟨⟩
  · rintro ⟨⟩

theorem matching_takes : ∀ s ∈ matching.steps, s.ListsTaken matching := by
  intro s hs
  simp only [matching, List.mem_cons, List.not_mem_nil, or_false] at hs
  rcases hs with rfl | rfl | rfl
  · refine ⟨fun i hi hid => .inr ?_, fun j hj i hi hid => ?_⟩
    · obtain rfl := matching_built.arena.id_injective hi
        (List.mem_of_getElem? (i := 2) rfl : readItems ∈ _) hid
      intro c hc d hd hname _
      replace hc : c ∈ [⟨"id", .int64, false, none⟩, ⟨"tag", .string, true, none⟩] := hc
      replace hd : d ∈ [⟨"id", .int64, false, none⟩,
        ⟨"match", .struct right, true, right.schema⟩] := hd
      simp only [List.mem_cons, List.not_mem_nil, or_false] at hc hd
      rcases hc with rfl | rfl <;> rcases hd with rfl | rfl <;> first
        | exact ⟨rfl, .flat⟩
        | exact absurd hname (by decide)
    · obtain rfl := List.mem_singleton.mp hj
      obtain rfl := matching_built.arena.id_injective hi
        (List.mem_of_getElem? (i := 1) rfl : readRight ∈ _) (List.mem_singleton.mp hid)
      intro d hd hname
      replace hd : d ∈ [⟨"id", .int64, false, none⟩,
        ⟨"match", .struct right, true, right.schema⟩] := hd
      simp only [List.mem_cons, List.not_mem_nil, or_false] at hd
      rcases hd with rfl | rfl
      · exact absurd hname (by decide)
      · exact .same
  · trivial
  · trivial

theorem matching_lossless {plan : Plan} (hplan : Plan.build matching matchItems.id {} = .ok plan) :
    plan.Lossless matching matchItems := by
  have provided : plan.provided matching matchItems = ["id", "match"] := by
    have h : (Plan.build matching matchItems.id {}).map (·.provided matching matchItems) =
      .ok ["id", "match"] := rfl
    rw [hplan] at h
    exact Except.ok.inj h
  have performed : (plan.joinsOf matchItems).map (·.field) = ["match"] := by
    have h : (Plan.build matching matchItems.id {}).map
      (fun plan => (plan.joinsOf matchItems).map (·.field)) = .ok ["match"] := rfl
    rw [hplan] at h
    exact Except.ok.inj h
  intro s hs _ x hx _
  simp only [matching, List.mem_cons, List.not_mem_nil, or_false] at hs
  rcases hs with rfl | rfl | rfl
  · refine ⟨fun drops => drops.2.2 (provided ▸ hx), fun j hj _ => ?_⟩
    obtain rfl := List.mem_singleton.mp hj
    rw [performed]
    exact List.mem_singleton_self _
  · exact ⟨fun ⟨⟨_, _, _, join⟩, _⟩ => (nomatch join), fun j hj => (nomatch hj)⟩
  · exact ⟨fun ⟨⟨_, _, _, join⟩, _⟩ => (nomatch join), fun j hj => (nomatch hj)⟩

theorem matchTables_registers : matchTables.Registers matching := by
  intro s hs locator hl
  simp only [matching, List.mem_cons, List.not_mem_nil, or_false] at hs
  rcases hs with rfl | rfl | rfl <;> cases hl <;> exact ⟨_, rfl⟩

theorem matchItems_pruned : matching.Built ∧ matching.Consistent ∧
    (∀ s ∈ matching.steps, s.Honest matching) ∧ (∀ s ∈ matching.steps, s.ListsTaken matching) ∧
    matchTables.Registers matching ∧ matchItems ∈ matching.steps ∧
    ∃ plan, Plan.build matching matchItems.id {} = .ok plan ∧ plan.Lossless matching matchItems ∧
      ((engine matchTables).collect matching matchItems.id {}).run =
        .ok ([⟨[("id", .int 7), ("match", .record ⟨[("id", .int 7)]⟩)]⟩,
          ⟨[("id", .int 8), ("match", .null)]⟩].map (plan.schemaOf matchItems).conform) := by
  have consistent : matching.Consistent := by decide
  have mem : matchItems ∈ matching.steps := List.mem_cons_self ..
  obtain ⟨plan, hplan, pruned⟩ := collect_pruned matching_built consistent matching_honest
    matching_takes matchTables_registers mem
  have lossless := matching_lossless hplan
  exact ⟨matching_built, consistent, matching_honest, matching_takes, matchTables_registers, mem,
    plan, hplan, lossless, pruned lossless _ rfl⟩

def note : RecordType := ⟨"note", [⟨"note", .string, true⟩]⟩

/-- Adds a note to what is joined, of which it reads the id. -/
def addNote : Step := ⟨⟨4⟩, joined, joined.schema, FieldUsage.nothing.and joined ["id"],
  .map ⟨3⟩ fun r => ⟨[("id", r.value "id"), ("note", .text "new")]⟩⟩

def readNote : Step := ⟨⟨5⟩, note, note.schema, FieldUsage.nothing.and joined ["note"],
  .map ⟨4⟩ fun r => ⟨[("note", r.value "note")]⟩⟩

def noted : Pipeline := ⟨[readNote, addNote, joinRight, readRight, readLeft]⟩

def noteTables : Sources where
  tables := [("left", [⟨[("id", .int 7)]⟩]), ("right", [])]

theorem noted_built : noted.Built := by
  have first : Pipeline.Built ⟨[addNote, joinRight, readRight, readLeft]⟩ :=
    @Pipeline.Built.push _ ⟨4⟩ (.map ⟨3⟩ (.struct joined) _ _) _ Plan.joinRight_built
      (by simp [readLeft, readRight, joinRight]) rfl
  exact @Pipeline.Built.push _ ⟨5⟩ (.map ⟨4⟩ (.struct note) _ _) _ first
    (by simp [readLeft, readRight, joinRight, addNote]) rfl

theorem noted_honest : ∀ s ∈ noted.steps, s.Honest noted := by
  intro s hs
  simp only [noted, List.mem_cons, List.not_mem_nil, or_false] at hs
  rcases hs with rfl | rfl | rfl | rfl | rfl
  · refine ⟨?_, fun j hj => (nomatch hj)⟩
    intro i input
    obtain ⟨hi, hid⟩ := input
    obtain rfl := noted_built.arena.id_injective hi
      (List.mem_of_getElem? (i := 1) rfl : addNote ∈ _) (Option.some.inj hid).symm
    exact fun r => rfl
  · refine ⟨?_, fun j hj => (nomatch hj)⟩
    intro i input
    obtain ⟨hi, hid⟩ := input
    obtain rfl := noted_built.arena.id_injective hi
      (List.mem_of_getElem? (i := 2) rfl : joinRight ∈ _) (Option.some.inj hid).symm
    exact fun r => rfl
  · intro _ i hi
    obtain ⟨hmem, hid⟩ := Pipeline.hasInput_iff.mp hi
    replace hid : i.id ∈ [⟨1⟩, ⟨2⟩] := hid
    rcases List.mem_cons.mp hid with hid | hid
    · obtain rfl := noted_built.arena.id_injective hmem
        (List.mem_of_getElem? (i := 4) rfl : readLeft ∈ _) hid
      decide
    · obtain rfl := noted_built.arena.id_injective hmem
        (List.mem_of_getElem? (i := 3) rfl : readRight ∈ _) (List.mem_singleton.mp hid)
      decide
  · rintro ⟨⟩
  · rintro ⟨⟩

theorem noted_takes : ∀ s ∈ noted.steps, s.ListsTaken noted := by
  intro s hs
  simp only [noted, List.mem_cons, List.not_mem_nil, or_false] at hs
  rcases hs with rfl | rfl | rfl | rfl | rfl <;> trivial

/-- The users keep their promises, yet a note that one function writes and the next one reads is
lost: the join drops the note of its record type, and with it that of every later step. -/
theorem pruning_loses_note : noted.Built ∧ noted.Consistent ∧
    (∀ s ∈ noted.steps, s.Honest noted) ∧ (∀ s ∈ noted.steps, s.ListsTaken noted) ∧
    noteTables.Registers noted ∧ ∃ plan rows, Plan.build noted readNote.id {} = .ok plan ∧
      ((engine noteTables).collect noted readNote.id .pruningDisabled).run = .ok rows ∧
      ((engine noteTables).collect noted readNote.id {}).run ≠
        .ok (rows.map (plan.schemaOf readNote).conform) := by
  refine ⟨noted_built, by decide, noted_honest, noted_takes, ?_, _, [⟨[("note", .text "new")]⟩],
    rfl, rfl, fun same => ?_⟩
  · intro s hs locator hl
    simp only [noted, List.mem_cons, List.not_mem_nil, or_false] at hs
    rcases hs with rfl | rfl | rfl | rfl | rfl <;> cases hl <;> exact ⟨_, rfl⟩
  · have run : ((engine noteTables).collect noted readNote.id {}).run =
        .ok [⟨[("note", .null)]⟩] := rfl
    rw [run] at same
    have notes := congrArg (Except.map (·.map (·.value "note"))) same
    exact nomatch (List.cons.inj (Except.ok.inj notes)).1

end RecordFlow.Memory
