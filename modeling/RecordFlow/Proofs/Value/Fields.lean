/-! Named fields found by name. A field is found if no name is repeated; taking a field away does not
change what is found by other names. -/

namespace RecordFlow

variable {β : Type} {fields : List (String × β)} {name : String} {v : β}

theorem lookup_of_mem (distinct : (fields.map (·.1)).Nodup) (h : (name, v) ∈ fields) :
    fields.lookup name = some v := by
  obtain ⟨before, after, rfl⟩ := List.append_of_mem h
  refine List.lookup_eq_some_iff.mpr ⟨before, after, rfl, fun field hf => ?_⟩
  rw [List.map_append, List.nodup_append] at distinct
  have ne := distinct.2.2 field.1 (List.mem_map_of_mem hf) name (by simp)
  exact bne_iff_ne.mpr (Ne.symm ne)

theorem lookup_of_not_mem (h : name ∉ fields.map (·.1)) : fields.lookup name = none := by
  refine List.lookup_eq_none_iff.mpr fun field hf => bne_iff_ne.mpr fun same => h ?_
  exact List.mem_map.mpr ⟨field, hf, same.symm⟩

theorem lookup_cons_eq (other : String) :
    ((other, v) :: fields).lookup name = if name = other then some v else fields.lookup name := by
  rw [List.lookup_cons]
  by_cases h : name = other
  · rw [if_pos h, beq_iff_eq.mpr h]
  · rw [if_neg h, beq_eq_false_iff_ne.mpr h]

theorem lookup_eraseP_of_ne {other : String} (h : name ≠ other) :
    (fields.eraseP (·.1 == other)).lookup name = fields.lookup name := by
  induction fields with
  | nil => rfl
  | cons field rest ih =>
    obtain ⟨first, w⟩ := field
    rw [List.eraseP_cons, lookup_cons_eq]
    by_cases here : first = other
    · simp only [beq_iff_eq.mpr here, cond_true, if_neg (here ▸ h)]
    · simp only [beq_eq_false_iff_ne.mpr here, cond_false, lookup_cons_eq, ih]

end RecordFlow
