import Mathlib.Data.List.Induction
import RecordFlow.Proofs.Schema.Restrict

/-! Schemas with columns deleted. Deleting is all that pruning does: every column that is left, at
any depth, has the name, type and nullability that it had, and stands in the order that it had. If no
two columns had one name, columns are then found by name at their positions, and a record that the
whole schema shapes is shaped by what is left of it as before. -/

namespace RecordFlow

/-- Columns some of which are deleted, the same inside the columns that are kept. -/
inductive Column.Prunes : List Column → List Column → Prop
  | nil : Column.Prunes [] []
  | delete {c : Column} {cs ds : List Column} : Column.Prunes cs ds → Column.Prunes (c :: cs) ds
  | flat {name : String} {type : DataType} {nullable : Bool} {cs ds : List Column} :
      Column.Prunes cs ds →
      Column.Prunes (⟨name, type, nullable, none⟩ :: cs) (⟨name, type, nullable, none⟩ :: ds)
  | nested {name : String} {type : DataType} {nullable : Bool} {record : String}
      {inner inner' cs ds : List Column} : Column.Prunes inner inner' → Column.Prunes cs ds →
      Column.Prunes (⟨name, type, nullable, some ⟨record, inner⟩⟩ :: cs)
        (⟨name, type, nullable, some ⟨record, inner'⟩⟩ :: ds)

/-- The second schema is the first one with columns deleted. -/
def Schema.Prunes (s t : Schema) : Prop := t.name = s.name ∧ Column.Prunes s.columns t.columns

/-- Columns are found by name at their positions. -/
structure Schema.Indexed (s : Schema) : Prop where
  found : ∀ i c, s.columns[i]? = some c → s.indexOf? c.name = some i ∧ s.find? c.name = some c
  only : ∀ name i, s.indexOf? name = some i → ∃ c, s.columns[i]? = some c ∧ c.name = name

/-- The second column is the first one with nested columns deleted: what the first shapes, the second
shapes as before. -/
structure Column.Narrows (c d : Column) : Prop where
  name : d.name = c.name
  type : d.type = c.type
  nullable : d.nullable = c.nullable
  conform : ∀ v, d.conform (c.conform v) = d.conform v

theorem Schema.conform_conform_of_narrows {s t : Schema} (distinct : s.names.Nodup)
    (narrows : ∀ d ∈ t.columns, ∃ c ∈ s.columns, c.Narrows d) (r : Record) :
    t.conform (s.conform r) = t.conform r := by
  refine conform_conform_of_columns distinct (fun d hd => ?_) r
  obtain ⟨c, hc, narrow⟩ := narrows d hd
  exact ⟨c, hc, narrow.name, narrow.conform⟩

namespace Column

/-- Keeping some of the columns, and some of those nested in them, deletes the others. -/
theorem prunes_restrict (kept : ColumnSet) (cs : List Column) (shown : String → Bool) :
    Prunes cs ((cs.filter (shown ·.name)).map (restrict kept)) := by
  induction cs using Column.induction generalizing shown with
  | nil => exact .nil
  | flat name type nullable rest ih =>
    rw [List.filter_cons]
    split
    · exact .flat (ih shown)
    · exact .delete (ih shown)
  | nested name type nullable record inner rest ihInner ihRest =>
    rw [List.filter_cons]
    split
    · rw [List.map_cons, restrict, Schema.restrict, restrictAll_eq]
      exact .nested (ihInner (kept record)) (ihRest shown)
    · exact .delete (ihRest shown)

theorem Prunes.names {cs ds : List Column} (h : Prunes cs ds) :
    (ds.map (·.name)).Sublist (cs.map (·.name)) := by
  induction h with
  | nil => exact .slnil
  | delete _ ih => exact ih.cons _
  | flat _ ih => exact ih.cons_cons _
  | nested _ _ _ ih => exact ih.cons_cons _

/-- No names become equal. -/
theorem Prunes.distinct {cs ds : List Column} (h : Prunes cs ds)
    (distinct : ∀ t ∈ partsAll cs, t.names.Nodup) : ∀ t ∈ partsAll ds, t.names.Nodup := by
  induction h with
  | nil => exact distinct
  | @delete c cs ds _ ih =>
    have split : c :: cs = [c] ++ cs := rfl
    rw [split, partsAll_append] at distinct
    exact ih fun t ht => distinct t (List.mem_append_right _ ht)
  | flat _ ih => exact ih distinct
  | nested inside _ ihInner ihRest =>
    rw [partsAll_nested, List.forall_mem_cons, List.forall_mem_append] at distinct ⊢
    exact ⟨distinct.1.sublist inside.names, ihInner distinct.2.1, ihRest distinct.2.2⟩

/-- Every column that is left is made from one of the columns. -/
theorem Prunes.narrows {cs ds : List Column} (h : Prunes cs ds)
    (distinct : ∀ t ∈ partsAll cs, t.names.Nodup) : ∀ d ∈ ds, ∃ c ∈ cs, c.Narrows d := by
  induction h with
  | nil => simp
  | @delete c cs ds _ ih =>
    have split : c :: cs = [c] ++ cs := rfl
    rw [split, partsAll_append] at distinct
    intro d hd
    obtain ⟨c, hc, narrow⟩ := ih (fun t ht => distinct t (List.mem_append_right _ ht)) d hd
    exact ⟨c, List.mem_cons_of_mem _ hc, narrow⟩
  | flat _ ih =>
    intro d hd
    rcases List.mem_cons.mp hd with rfl | hd
    · exact ⟨_, List.mem_cons_self, rfl, rfl, rfl, fun _ => rfl⟩
    · obtain ⟨c, hc, narrow⟩ := ih distinct d hd
      exact ⟨c, List.mem_cons_of_mem _ hc, narrow⟩
  | @nested _ _ _ record inner inner' _ _ _ _ ihInner ihRest =>
    rw [partsAll_nested, List.forall_mem_cons, List.forall_mem_append] at distinct
    obtain ⟨here, inside, rest⟩ := distinct
    intro d hd
    rcases List.mem_cons.mp hd with rfl | hd
    · refine ⟨_, List.mem_cons_self, rfl, rfl, rfl, fun v => ?_⟩
      have records := @Schema.conform_conform_of_narrows ⟨record, inner⟩ ⟨record, inner'⟩ here
        (ihInner inside)
      simp only [conform, Value.mapRecords_mapRecords, records]
    · obtain ⟨c, hc, narrow⟩ := ihRest rest d hd
      exact ⟨c, List.mem_cons_of_mem _ hc, narrow⟩

end Column

namespace Schema

variable {s t : Schema}

theorem prunes_prune (shown : String → Bool) (kept : ColumnSet) (s : Schema) :
    s.Prunes (s.prune shown kept) :=
  ⟨rfl, Column.prunes_restrict kept s.columns shown⟩

theorem Prunes.distinct (h : s.Prunes t) (distinct : ∀ u ∈ s.parts, u.names.Nodup) :
    ∀ u ∈ t.parts, u.names.Nodup := by
  intro u hu
  rcases mem_parts.mp hu with rfl | hu
  · exact (distinct s (mem_parts.mpr (.inl rfl))).sublist h.2.names
  · exact h.2.distinct (fun v hv => distinct v (mem_parts.mpr (.inr hv))) u hu

theorem Prunes.narrows (h : s.Prunes t) (distinct : ∀ u ∈ s.parts, u.names.Nodup) :
    ∀ d ∈ t.columns, ∃ c ∈ s.columns, c.Narrows d :=
  h.2.narrows fun u hu => distinct u (mem_parts.mpr (.inr hu))

theorem Prunes.conform_conform (h : s.Prunes t) (distinct : ∀ u ∈ s.parts, u.names.Nodup)
    (r : Record) : t.conform (s.conform r) = t.conform r :=
  conform_conform_of_narrows (distinct s (mem_parts.mpr (.inl rfl))) (h.narrows distinct) r

/-- In a table of positions that has the last name first, the last position of a name is found. -/
theorem lookup_reverse_zipIdx (names : List String) (name : String) (i : Nat) :
    names.zipIdx.reverse.lookup name = some i ↔
      names[i]? = some name ∧ ∀ j, names[j]? = some name → j ≤ i := by
  induction names using List.reverseRecOn with
  | nil => simp
  | append_singleton front last ih =>
    have table : (front ++ [last]).zipIdx.reverse =
        (last, front.length) :: front.zipIdx.reverse := by
      simp [List.zipIdx_append]
    have bound {j : Nat} (h : (front ++ [last])[j]? = some name) : j ≤ front.length := by
      have := (List.getElem?_eq_some_iff.mp h).1
      simp only [List.length_append, List.length_singleton] at this
      omega
    rw [table, List.lookup_cons]
    by_cases same : name = last
    · subst same
      have here : (front ++ [name])[front.length]? = some name := List.getElem?_concat_length ..
      rw [beq_self_eq_true]
      constructor
      · rintro ⟨⟩
        exact ⟨here, fun j => bound⟩
      · intro h
        exact congrArg some (Nat.le_antisymm (h.2 _ here) (bound h.1))
    · have front_only (j : Nat) : (front ++ [last])[j]? = some name ↔ front[j]? = some name := by
        constructor
        · intro h
          rcases Nat.lt_or_eq_of_le (bound h) with lt | rfl
          · rwa [List.getElem?_append_left lt] at h
          · rw [List.getElem?_concat_length] at h
            exact absurd (Option.some.inj h).symm same
        · intro h
          rwa [List.getElem?_append_left (List.getElem?_eq_some_iff.mp h).1]
      simp only [beq_eq_false_iff_ne.mpr same, ih, front_only]

/-- The index of a name is the last position of a column of that name. -/
theorem indexOf?_eq_some_iff {name : String} {i : Nat} : s.indexOf? name = some i ↔
    s.names[i]? = some name ∧ ∀ j, s.names[j]? = some name → j ≤ i :=
  lookup_reverse_zipIdx s.names name i

theorem indexed_of_distinct (distinct : s.names.Nodup) : s.Indexed := by
  refine ⟨fun i c hc => ?_, fun name i h => ?_⟩
  · have here : s.names[i]? = some c.name := by rw [names, List.getElem?_map, hc, Option.map_some]
    obtain ⟨bound, -⟩ := List.getElem?_eq_some_iff.mp here
    have found : s.indexOf? c.name = some i := indexOf?_eq_some_iff.mpr ⟨here, fun j there =>
      Nat.le_of_eq ((List.getElem?_inj bound distinct).mp (here.trans there.symm)).symm⟩
    exact ⟨found, by rw [find?, found]; exact hc⟩
  · have here := (indexOf?_eq_some_iff.mp h).1
    rw [names, List.getElem?_map, Option.map_eq_some_iff] at here
    exact here

end Schema

end RecordFlow
