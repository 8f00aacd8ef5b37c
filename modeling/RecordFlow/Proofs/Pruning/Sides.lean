import RecordFlow.Proofs.Pruning.Lossless
import RecordFlow.Proofs.Pruning.Unrestricted

/-! Which sides of a join a plan performs. A side fills its field and, where it matches over several
steps, the companion with their positions; the field alone decides whether it is performed. Main
statement: a side is performed just if a column is used that it fills, unless the companion is used
and the field is not. -/

namespace RecordFlow.Plan

open Resolution (isNeeded neededJoins)

variable {p : Pipeline} {used : UsedFields} {s t : Step} {j : Join}

/-- All columns of the join are used, or one that the side fills. -/
def FillsUsed (used : UsedFields) (s : Step) (j : Join) : Prop :=
  used.fieldsOf? s.seed = none ∨ ∃ names, used.fieldsOf? s.seed = some names ∧
    (j.field ∈ names ∨ ∃ index, j.indexField? = some index ∧ index ∈ names)

/-- Of the columns that the side fills the companion is used and the field is not. -/
def OnlyIndexUsed (used : UsedFields) (s : Step) (j : Join) : Prop :=
  ∃ names index, used.fieldsOf? s.seed = some names ∧ j.field ∉ names ∧
    j.indexField? = some index ∧ index ∈ names

theorem isNeeded_iff : isNeeded (used.fieldsOf? s.seed) j = true ↔
    used.fieldsOf? s.seed = none ∨
      ∃ names, used.fieldsOf? s.seed = some names ∧ j.field ∈ names := by
  unfold isNeeded
  cases used.fieldsOf? s.seed <;> simp

/-- The field is one of the columns that the side fills, so that only the companion makes a
difference. -/
theorem isNeeded_iff_fillsUsed_iff :
    (isNeeded (used.fieldsOf? s.seed) j = true ↔ FillsUsed used s j) ↔ ¬ OnlyIndexUsed used s j := by
  rw [isNeeded_iff]
  constructor
  · rintro same ⟨names, index, hused, unused, hindex, hmem⟩
    have fills : FillsUsed used s j := .inr ⟨names, hused, .inr ⟨index, hindex, hmem⟩⟩
    rcases same.mpr fills with none | ⟨names', hused', field⟩
    · rw [hused] at none
      cases none
    · rw [hused] at hused'
      cases hused'
      exact unused field
  · intro never
    refine ⟨Or.imp_right fun ⟨names, hused, field⟩ => ⟨names, hused, .inl field⟩, ?_⟩
    rintro (none | ⟨names, hused, field | ⟨index, hindex, hmem⟩⟩)
    · exact .inl none
    · exact .inr ⟨names, hused, field⟩
    · refine .inr ⟨names, hused, Classical.byContradiction fun unused => ?_⟩
      exact never ⟨names, index, hused, unused, hindex, hmem⟩

/-- The sides that a resolved join performs are those whose field is used; these are the ones that
fill a used column, unless it is the companion alone that is used. -/
theorem performs_iff_fillsUsed (built : p.Built) (ht : t ∈ p.steps) :
    ∃ used plan, UsedFields.collect p t.id = .ok used ∧ Plan.build p t.id {} = .ok plan ∧
      ∀ s ∈ p.steps, plan.needs s.id = true → ∀ j ∈ s.joins,
        (j ∈ plan.joinsOf s ↔ used.fieldsOf? s.seed = none ∨
          ∃ names, used.fieldsOf? s.seed = some names ∧ j.field ∈ names) ∧
        ((j ∈ plan.joinsOf s ↔ FillsUsed used s j) ↔ ¬ OnlyIndexUsed used s j) := by
  have arena := built.arena
  obtain ⟨used, hused, -⟩ := UsedFields.collect_spec arena ht
  refine ⟨used, pruned used p t, hused, build_pruned arena ht hused, fun s hs needed j hj => ?_⟩
  have performed : j ∈ (pruned used p t).joinsOf s ↔
      isNeeded (used.fieldsOf? s.seed) j = true := by
    rw [joinsOf_pruned arena ht ((needs_pruned arena ht hs).mp needed), neededJoins, List.mem_filter]
    exact and_iff_right hj
  refine ⟨performed.trans isNeeded_iff, ?_⟩
  rw [performed]
  exact isNeeded_iff_fillsUsed_iff

def located : RecordType := ⟨"located",
  [⟨"id", .int64, false⟩, ⟨"match", .list (.struct right), true⟩,
    ⟨"match_index", .list .int64, true⟩]⟩

def places : RecordType := ⟨"places", [⟨"places", .list .int64, true⟩]⟩

def locate : Join := ⟨"match", .multiArray, [⟨2⟩], (·.value "id")⟩

def joinAll : Step :=
  ⟨⟨3⟩, located, located.schema, .unknown, .joinLeft ⟨1⟩ (·.value "id") [locate]⟩

/-- Tells in which steps the matches are. -/
def placesOf : Step := ⟨⟨4⟩, places, places.schema, FieldUsage.nothing.and located ["match_index"],
  .map ⟨3⟩ fun r => ⟨[("places", r.value "match_index")]⟩⟩

def placed : Pipeline := ⟨[placesOf, joinAll, readRight, readLeft]⟩

theorem placed_built : placed.Built := by
  have joins : Pipeline.Built ⟨[joinAll, readRight, readLeft]⟩ :=
    @Pipeline.Built.push _ ⟨3⟩ (.joinLeft ⟨1⟩ (.struct located) (·.value "id")
      [⟨"match", "right_multi_array", .steps [⟨2⟩], some (·.value "id")⟩] .unknown) _ sides_built
      (by simp [readLeft, readRight]) rfl
  exact @Pipeline.Built.push _ ⟨4⟩ (.map ⟨3⟩ (.struct places) _ _) _ joins
    (by simp [readLeft, readRight, joinAll]) rfl

theorem locate_performed_iff : placed.Built ∧ placesOf ∈ placed.steps ∧
    ∃ used plan, UsedFields.collect placed placesOf.id = .ok used ∧
      Plan.build placed placesOf.id {} = .ok plan ∧ plan.needs joinAll.id = true ∧
      ((locate ∈ plan.joinsOf joinAll ↔ FillsUsed used joinAll locate) ↔
        ¬ OnlyIndexUsed used joinAll locate) := by
  have target : placesOf ∈ placed.steps := List.mem_cons_self ..
  obtain ⟨used, plan, hused, hplan, law⟩ := performs_iff_fillsUsed placed_built target
  refine ⟨placed_built, target, used, plan, hused, hplan, ?_⟩
  cases hplan
  exact ⟨rfl, (law joinAll (by simp [placed]) rfl locate (List.mem_cons_self ..)).2⟩

/-- The positions of the matches are used, and yet nothing is matched: the join is left with the
columns of its source. -/
theorem locate_skipped : placed.Built ∧ placesOf ∈ placed.steps ∧ joinAll ∈ placed.steps ∧
    locate ∈ joinAll.joins ∧ locate.indexField? = some "match_index" ∧
    ∃ used plan, UsedFields.collect placed placesOf.id = .ok used ∧
      used.fieldsOf? joinAll.seed = some ["match_index"] ∧
      Plan.build placed placesOf.id {} = .ok plan ∧ plan.needs joinAll.id = true ∧
      locate ∉ plan.joinsOf joinAll ∧ (plan.schemaOf joinAll).names = ["id"] := by
  have none {plan : Plan} (h : plan.joinsOf joinAll = []) : locate ∉ plan.joinsOf joinAll := by
    rw [h]
    exact List.not_mem_nil
  exact ⟨placed_built, List.mem_cons_self .., by simp [placed], List.mem_cons_self .., rfl,
    _, _, rfl, rfl, rfl, rfl, none rfl, rfl⟩

end RecordFlow.Plan
