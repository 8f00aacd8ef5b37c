import RecordFlow.Proofs.Pruning.Losses
import RecordFlow.Proofs.Pruning.Lossless
import RecordFlow.Proofs.Pruning.Nested
import RecordFlow.Proofs.Pruning.Unrestricted

/-! What is left of the records that a function of unknown usage is given. Their record type is used
in full, so that no read narrows it; but joins take columns from it, and the record types nested in it
are narrowed like any others. Main statement: nothing else happens to the records, so they are whole
just if they lose no column in either way. -/

namespace RecordFlow.Plan

open Resolution (homes homes_built homes_consistent homes_joinless writeTo settleIn
  readAddresses)

variable {p : Pipeline} {used : UsedFields} {t i : Step}

/-- No column of a step is lost at any depth, the steps `earlier` being resolved before it. -/
structure LeavesWhole (plan : Plan) (p : Pipeline) (used : UsedFields) (t : Step)
    (earlier : List Step) (i : Step) : Prop where
  /-- No join of the record type, the step itself or an earlier one, drops a column. -/
  top : ∀ x ∈ i.seed.fieldNames, ∀ j ∈ earlier ++ [i], j.seed.name = i.seed.name →
    ¬ plan.Drops p j x
  /-- No column of a record type nested in it is lost by the end of the run. -/
  nested : ∀ u ∈ Column.partsAll i.schema.columns, ∀ x ∈ u.names,
    ¬ plan.Loses p used (visited used p t) u.name x

theorem leavesWhole_iff (consistent : p.Consistent) (arena : Arena p.steps) (ht : t ∈ p.steps)
    (full : used.isUnrestricted i.seed.name = true) {earlier later : List Step}
    (he : visited used p t = earlier ++ i :: later) :
    (pruned used p t).LeavesWhole p used t earlier i ↔
      (pruned used p t).schemaOf i = i.schema := by
  have catalog := consistent.catalog arena
  have hi := (visited_spec used arena ht).ordered.mem i (by simp [he])
  have hu := Pipeline.schema_mem arena hi
  have hname := Pipeline.schema_name arena hi
  have top : (∀ x ∈ i.seed.fieldNames,
      (Resolution.after used (earlier ++ [i])).restrictions.keeps i.schema.name x = true) ↔
      ∀ x ∈ i.seed.fieldNames, ∀ j ∈ earlier ++ [i], j.seed.name = i.seed.name →
        ¬ (pruned used p t).Drops p j x := by
    refine forall₂_congr fun x hx => ?_
    rw [← Pipeline.schema_names arena hi] at hx
    have law := keeps_after_iff catalog arena ht hu (hname ▸ full) hx (earlier ++ [i]) [] later
      (by simp [he])
    rw [hname, List.nil_append] at law
    rw [hname, law]
    exact and_iff_right (Restrictions.keeps_of_find?_eq_none rfl x)
  have nested : (kept used p t).Holds (Column.partsAll i.schema.columns) ↔
      ∀ u ∈ Column.partsAll i.schema.columns, ∀ x ∈ u.names,
        ¬ (pruned used p t).Loses p used (visited used p t) u.name x :=
    forall₂_congr fun u inside => forall₂_congr fun x hx =>
      keeps_iff_not_loses catalog arena ht (List.append_nil _).symm
        (catalog.closed i.schema hu u inside) hx
  rw [schemaOf_pruned catalog arena ht he, Schema.prune_eq_self_iff, Column.restrict_eq_self_iff,
    Pipeline.schema_names arena hi, top, nested]
  exact ⟨fun h => ⟨h.top, h.nested⟩, fun h => ⟨h.1, h.2⟩⟩

/-- A function of unknown usage is given whole records just if no column is taken from them on the
way. -/
theorem whole_iff_of_isOpaque (built : p.Built) (consistent : p.Consistent) (ht : t ∈ p.steps) :
    ∃ used plan, UsedFields.collect p t.id = .ok used ∧ Plan.build p t.id {} = .ok plan ∧
      ∀ s ∈ p.steps, plan.needs s.id = true → s.IsOpaque → ∀ i, p.HasInput s i →
        ∀ earlier later, visited used p t = earlier ++ i :: later →
          (plan.schemaOf i = i.schema ↔ plan.LeavesWhole p used t earlier i) := by
  have arena := built.arena
  obtain ⟨used, hused, follows⟩ := UsedFields.collect_spec arena ht
  refine ⟨used, pruned used p t, hused, build_pruned arena ht hused,
    fun s hs needed silent i hi earlier later he => ?_⟩
  have path : p.Reaches t s := reaches_of_visited arena ht ((needs_pruned arena ht hs).mp needed)
  have full := (follows.unrestricted i.seed.name).mpr (.inr ⟨s, i, path, silent, hi, rfl⟩)
  exact (leavesWhole_iff consistent arena ht full he).symm

theorem settleIn_whole_iff : homes.Built ∧ homes.Consistent ∧ writeTo ∈ homes.steps ∧
    ∃ used plan, UsedFields.collect homes writeTo.id = .ok used ∧
      Plan.build homes writeTo.id {} = .ok plan ∧
      (plan.schemaOf settleIn = settleIn.schema ↔
        plan.LeavesWhole homes used writeTo [readAddresses] settleIn) := by
  have target : writeTo ∈ homes.steps := List.mem_cons_self ..
  have input : homes.HasInput writeTo settleIn := .inl ⟨by simp [homes], rfl⟩
  obtain ⟨used, plan, hused, hplan, law⟩ :=
    whole_iff_of_isOpaque homes_built homes_consistent target
  refine ⟨homes_built, homes_consistent, target, used, plan, hused, hplan, ?_⟩
  cases hused
  cases hplan
  exact law writeTo target rfl ⟨rfl, rfl⟩ settleIn input [readAddresses] [writeTo] rfl

/-- The streets of residents are lost, though nothing is known of what the function given the
residents reads: another function reads no more of addresses than their cities. -/
theorem settleIn_loses_streets : homes.Built ∧ homes.Consistent ∧ writeTo ∈ homes.steps ∧
    writeTo.IsOpaque ∧ homes.HasInput writeTo settleIn ∧
    ¬ settleIn.IsJoin ∧ settleIn.operation.passed? = none ∧
    (Column.partsAll settleIn.schema.columns).map Schema.names =
      [["street", "city"], ["street", "city"]] ∧
    ∃ plan, Plan.build homes writeTo.id {} = .ok plan ∧ plan.needs writeTo.id = true ∧
      plan.needs settleIn.id = true ∧ plan.schemaOf settleIn ≠ settleIn.schema ∧
      (Column.partsAll (plan.schemaOf settleIn).columns).map Schema.names =
        [["city"], ["city"]] := by
  have input : settleIn ∈ homes.steps := by simp [homes]
  refine ⟨homes_built, homes_consistent, List.mem_cons_self .., ⟨rfl, rfl⟩, .inl ⟨input, rfl⟩,
    homes_joinless settleIn input, rfl, rfl, _, rfl, rfl, rfl, fun same => ?_, rfl⟩
  have names := congrArg (fun u => (Column.partsAll u.columns).map Schema.names) same
  exact absurd names (by decide)

end RecordFlow.Plan
