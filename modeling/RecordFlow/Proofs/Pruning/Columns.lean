import RecordFlow.Proofs.Pruning.Lossless
import RecordFlow.Proofs.Pruning.Nested
import RecordFlow.Proofs.Schema.Prunes

/-! What a plan makes of the columns of a step. Main statement: it deletes columns and does nothing
else, and of a read it deletes just what is not used unless a join has the same record type. -/

namespace RecordFlow.Plan

open Resolution (readNames homes homes_built homes_consistent homes_joinless writeTo
  readAddresses)

variable {p : Pipeline} {used : UsedFields} {t s : Step}

/-- The columns that a plan leaves are declared ones, as they are and in their order. -/
structure PrunesColumns (plan : Plan) (p : Pipeline) (used : UsedFields) : Prop where
  prunes : ∀ s ∈ p.steps, s.schema.Prunes (plan.schemaOf s)
  indexed : ∀ s ∈ p.steps, ∀ u ∈ (plan.schemaOf s).parts, u.Indexed
  /-- Reads are left the used fields, or all if none are known, unless a join that the run needs has
  the same record type. -/
  reads : ∀ s ∈ p.steps, plan.needs s.id = true → s.source? = none →
    (∀ j ∈ p.steps, plan.needs j.id = true → j.IsJoin → j.seed.name ≠ s.seed.name) →
    (plan.schemaOf s).names = readNames used s

/-- Steps that a run does not need have their declared schema. -/
theorem schemaOf_of_not_needed {plan : Plan} (h : ¬ plan.needs s.id = true) :
    plan.schemaOf s = s.schema := by
  rw [needs, Bool.or_eq_true, not_or] at h
  have none : plan.schemas.find? s.id = none := Option.not_isSome_iff_eq_none.mp h.2
  rw [schemaOf, none, Option.getD_none]

theorem exists_prune (used : UsedFields) (catalog : Schema.Catalog p.schemas)
    (arena : Arena p.steps) (ht : t ∈ p.steps) (hs : s ∈ p.steps) :
    ∃ shown kept, (pruned used p t).schemaOf s = s.schema.prune shown kept := by
  by_cases needed : (pruned used p t).needs s.id = true
  · obtain ⟨pre, post, he⟩ := List.append_of_mem ((needs_pruned arena ht hs).mp needed)
    exact ⟨_, _, schemaOf_pruned catalog arena ht he⟩
  · exact ⟨_, _, (schemaOf_of_not_needed needed).trans s.schema.prune_all.symm⟩

/-- A plan with pruning deletes columns of the declared schemas and does nothing else. -/
theorem build_prunesColumns (built : p.Built) (consistent : p.Consistent) (ht : t ∈ p.steps) :
    ∃ used plan, UsedFields.collect p t.id = .ok used ∧ Plan.build p t.id {} = .ok plan ∧
      plan.PrunesColumns p used := by
  have arena := built.arena
  have catalog := consistent.catalog arena
  obtain ⟨used, hused, -⟩ := UsedFields.collect_spec arena ht
  have ordered := (visited_spec used arena ht).ordered
  have prunes : ∀ s ∈ p.steps, s.schema.Prunes ((pruned used p t).schemaOf s) := fun s hs => by
    obtain ⟨shown, kept, he⟩ := exists_prune used catalog arena ht hs
    rw [he]
    exact Schema.prunes_prune shown kept s.schema
  refine ⟨used, pruned used p t, hused, build_pruned arena ht hused, prunes, fun s hs u hu => ?_,
    fun s hs needed read alone => ?_⟩
  · have declared := catalog.distinct_parts (Pipeline.schema_mem arena hs)
    exact Schema.indexed_of_distinct ((prunes s hs).distinct declared u hu)
  · have visited := (needs_pruned arena ht hs).mp needed
    obtain ⟨pre, post, he⟩ := List.append_of_mem visited
    have found := ordered.replayed catalog arena he
    rw [schemaOf_pruned catalog arena ht he]
    refine ordered.names_replayed_of_read consistent arena visited read (fun j hj join => ?_) found
    exact alone j (ordered.mem j hj) ((needs_pruned arena ht (ordered.mem j hj)).mpr hj) join

/-- Of addresses the city is left, and the same of the addresses of residents. -/
theorem homes_prunesColumns : homes.Built ∧ homes.Consistent ∧ writeTo ∈ homes.steps ∧
    ∃ used plan, UsedFields.collect homes writeTo.id = .ok used ∧
      Plan.build homes writeTo.id {} = .ok plan ∧ plan.PrunesColumns homes used ∧
      (plan.schemaOf readAddresses).names = ["city"] := by
  have target : writeTo ∈ homes.steps := List.mem_cons_self ..
  obtain ⟨used, plan, hused, hplan, law⟩ :=
    build_prunesColumns homes_built homes_consistent target
  refine ⟨homes_built, homes_consistent, target, used, plan, hused, hplan, law, ?_⟩
  have read : readAddresses ∈ homes.steps := by simp [homes]
  cases hused
  cases hplan
  exact law.reads readAddresses read rfl rfl fun j hj _ join => absurd join (homes_joinless j hj)

end RecordFlow.Plan
