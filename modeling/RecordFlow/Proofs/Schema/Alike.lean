import RecordFlow.Proofs.Pruning.FieldSets
import RecordFlow.Proofs.Schema.Shaped

/-! Records that are alike in the used columns. A run with fewer columns makes other records than
one with all of them, but a function that keeps to the used columns cannot tell the one from the
other. -/

namespace RecordFlow

/-! ### Values record by record -/

mutual

/-- What follows of the records from their being mapped alike follows of values. -/
theorem Value.mapRecords_transfer {P Q : Record → Prop} {f g : Record → Record}
    (h : ∀ r r', P r → Q r' → f r = f r' → g r = g r') : ∀ v w : Value, v.EveryRecord P →
      w.EveryRecord Q → v.mapRecords f = w.mapRecords f → v.mapRecords g = w.mapRecords g
  | .list vs, w => by
    cases w with
    | list ws =>
      intro hv hw he
      exact congrArg Value.list
        (Value.mapRecordsAll_transfer h vs ws hv hw (Value.list.inj he))
    | _ => intro _ _ he; cases he
  | .record r, w => by
    cases w with
    | record r' =>
      intro hr hr' he
      exact congrArg Value.record (h r r' hr hr' (Value.record.inj he))
    | _ => intro _ _ he; cases he
  | .null, w | .bool _, w | .int _, w | .float _, w | .text _, w | .bytes _, w => by
    cases w with
    | list | record => intro _ _ he; cases he
    | _ => exact fun _ _ he => he

theorem Value.mapRecordsAll_transfer {P Q : Record → Prop} {f g : Record → Record}
    (h : ∀ r r', P r → Q r' → f r = f r' → g r = g r') : ∀ vs ws : List Value,
      Value.EveryRecordAll P vs → Value.EveryRecordAll Q ws →
      Value.mapRecordsAll f vs = Value.mapRecordsAll f ws →
      Value.mapRecordsAll g vs = Value.mapRecordsAll g ws
  | [], [] => fun _ _ _ => rfl
  | [], _ :: _ => by intro _ _ he; cases he
  | _ :: _, [] => by intro _ _ he; cases he
  | v :: vs, w :: ws => by
    intro hv hw he
    obtain ⟨first, rest⟩ := List.cons.inj he
    have here := Value.mapRecords_transfer h v w hv.1 hw.1 first
    have later := Value.mapRecordsAll_transfer h vs ws hv.2 hw.2 rest
    simp only [Value.mapRecordsAll, here, later]

end

mutual

theorem Value.mapRecords_id : ∀ v : Value, v.mapRecords id = v
  | .list vs => congrArg Value.list (Value.mapRecordsAll_id vs)
  | .record _ | .null | .bool _ | .int _ | .float _ | .text _ | .bytes _ => rfl

theorem Value.mapRecordsAll_id : ∀ vs : List Value, Value.mapRecordsAll id vs = vs
  | [] => rfl
  | v :: vs => by simp only [Value.mapRecordsAll, Value.mapRecords_id v, Value.mapRecordsAll_id vs]

end

/-- Shapes the records in a value by what is nested in its column. -/
def Schema.conformIn : Option Schema → Value → Value
  | none, v => v
  | some s, v => v.mapRecords s.conform

namespace Column

theorem conform_eq (c : Column) (v : Value) : c.conform v = Schema.conformIn c.nested v := by
  obtain ⟨name, type, nullable, nested⟩ := c
  cases nested <;> rfl

theorem restrict_nested (kept : ColumnSet) (c : Column) :
    (c.restrict kept).nested = c.nested.map (Schema.restrict kept) := by
  obtain ⟨name, type, nullable, nested⟩ := c
  cases nested <;> rfl

theorem mem_partsAll_of_nested {cs : List Column} {c : Column} (hc : c ∈ cs) {s : Schema}
    (hs : c.nested = some s) : s ∈ partsAll cs := by
  refine mem_partsAll.mpr ⟨c, hc, ?_⟩
  obtain ⟨name, type, nullable, nested⟩ := c
  cases hs
  obtain ⟨record, inner⟩ := s
  simp

/-- A list is shaped value by value. -/
theorem conform_list (c : Column) (vs : List Value) :
    c.conform (.list vs) = .list (vs.map c.conform) := by
  obtain ⟨name, type, nullable, nested⟩ := c
  cases nested with
  | none => exact congrArg Value.list (List.map_id' vs).symm
  | some nested => exact congrArg Value.list (Value.mapRecordsAll_eq _ vs)

end Column

/-! ### Records -/

namespace Schema

variable {schemas : List Schema} {used kept : ColumnSet} {s : Schema} {r r' : Record}

/-- The record has all used columns, its nested records those that are kept, and nothing else. -/
def Narrows (used kept : ColumnSet) (s : Schema) (r : Record) : Prop :=
  ∃ shown : String → Bool, (∀ x ∈ s.names, used s.name x = true → shown x = true) ∧
    (s.prune shown kept).conform r = r

/-- A record with fewer columns is the same as one with all of them where columns are used. -/
structure Alike (used kept : ColumnSet) (s : Schema) (r r' : Record) : Prop where
  same : (s.restrict used).conform r = (s.restrict used).conform r'
  narrowed : s.Narrows used kept r
  full : s.conform r' = r'

/-- Values of a column are the same up to columns of nested records that are not used. -/
structure AlikeIn (used kept : ColumnSet) (o : Option Schema) (v w : Value) : Prop where
  same : conformIn (o.map (restrict used)) v = conformIn (o.map (restrict used)) w
  narrowed : ∀ s ∈ o, v.EveryRecord (s.Narrows used kept)
  full : ∀ s ∈ o, w.EveryRecord fun r => s.conform r = r

theorem narrows_conform (catalog : Catalog schemas) (hs : s ∈ schemas) {shown : String → Bool}
    (shows : ∀ x ∈ s.names, used s.name x = true → shown x = true) (r : Record) :
    s.Narrows used kept ((s.prune shown kept).conform r) :=
  ⟨shown, shows, (prune_stable shown kept (catalog.distinct_parts hs)).conform_conform r⟩

theorem stable (catalog : Catalog schemas) (hs : s ∈ schemas) : s.Stable := by
  have pruned := prune_stable (fun _ => true) (fun _ _ => true) (catalog.distinct_parts hs)
  rwa [prune_all] at pruned

/-- Records that look the same through the used columns are alike once they are shaped, the one by
these columns and more, the other by all. -/
theorem alike_conform (catalog : Catalog schemas) (within : Within schemas used kept)
    (hs : s ∈ schemas) {shown : String → Bool}
    (shows : ∀ x ∈ s.names, used s.name x = true → shown x = true)
    (same : (s.restrict used).conform r = (s.restrict used).conform r') :
    s.Alike used kept ((s.prune shown kept).conform r) (s.conform r') := by
  refine ⟨?_, narrows_conform catalog hs shows r, (stable catalog hs).conform_conform r'⟩
  have distinct := catalog.distinct_parts hs
  have pruned := conform_prune_conform distinct shows
    (fun t ht => within t (catalog.closed s hs t ht)) r
  have full := @conform_prune_conform s (fun _ => true) (used s.name)
    (fun _ _ => true) used distinct
    (fun _ _ _ => rfl) (fun _ _ _ _ _ => rfl) r'
  rw [prune_all] at full
  rw [restrict_eq_prune] at same ⊢
  rw [pruned, full, same]

namespace Alike

theorem absent (h : s.Alike used kept r r') {x : String} (hx : x ∉ s.names) :
    r.value x = .null ∧ r'.value x = .null := by
  obtain ⟨shown, -, narrowed⟩ := h.narrowed
  constructor
  · rw [← narrowed]
    refine value_conform_of_not_mem r fun hmem => hx ?_
    rw [prune_names] at hmem
    exact (List.mem_filter.mp hmem).1
  · rw [← h.full]
    exact value_conform_of_not_mem r' hx

/-- Used columns of alike records hold alike values. -/
theorem column (h : s.Alike used kept r r') (catalog : Catalog schemas)
    (within : Within schemas used kept) (hs : s ∈ schemas) {c : Column} (hc : c ∈ s.columns)
    (hu : used s.name c.name = true) :
    AlikeIn used kept c.nested (r.value c.name) (r'.value c.name) := by
  have distinct := catalog.distinct s hs
  have nested {t : Schema} (ht : t ∈ c.nested) : t ∈ schemas :=
    catalog.closed s hs t (Column.mem_partsAll_of_nested hc ht)
  refine ⟨?_, fun t ht => ?_, fun t ht => ?_⟩
  · have same := h.same
    rw [restrict_eq_prune, conform_prune_eq_iff] at same
    have here := same c hc hu
    rwa [Column.conform_eq, Column.conform_eq, Column.restrict_nested] at here
  · obtain ⟨shown, shows, narrowed⟩ := h.narrowed
    have value := @value_conform_prune s shown kept distinct r c hc (shows c.name (mem_names hc) hu)
    rw [narrowed, Column.conform_eq, Column.restrict_nested, ht] at value
    rw [value]
    refine Value.everyRecord_mapRecords (fun r => ?_) _
    rw [restrict_eq_prune]
    exact narrows_conform catalog (nested ht) (fun x hx => within t (nested ht) x hx) r
  · have value := value_conform distinct r' hc
    rw [h.full, Column.conform_eq, ht] at value
    rw [value]
    exact Value.everyRecord_mapRecords (fun r => (stable catalog (nested ht)).conform_conform r) _

/-- Where all columns are used, alike records are equal. -/
theorem eq_of_holds (h : s.Alike used kept r r') (catalog : Catalog schemas)
    (within : Within schemas used kept) (hs : s ∈ schemas) (holds : used.Holds s.parts) :
    r = r' := by
  have top := holds s (mem_parts.mpr (.inl rfl))
  have inside : used.Holds (Column.partsAll s.columns) :=
    fun t ht => holds t (mem_parts.mpr (.inr ht))
  obtain ⟨shown, shows, narrowed⟩ := h.narrowed
  have whole : s.prune shown kept = s :=
    prune_eq_self (fun x hx => shows x hx (top x hx))
      fun t ht x hx => within t (catalog.closed s hs t ht) x hx (inside t ht x hx)
  have all : s.restrict used = s := by
    rw [restrict_eq_prune]
    exact prune_eq_self top inside
  have same := h.same
  rw [whole] at narrowed
  rwa [all, narrowed, h.full] at same

/-- Alike records look the same through any of the used columns. -/
theorem conform_restrict (h : s.Alike used kept r r') (catalog : Catalog schemas)
    (hs : s ∈ schemas) {read : ColumnSet} (hread : ∀ n x, read n x = true → used n x = true) :
    (s.restrict read).conform r = (s.restrict read).conform r' := by
  have through (r : Record) := @conform_prune_conform s (used s.name) (read s.name) used read
    (catalog.distinct_parts hs) (fun x _ => hread s.name x) (fun t _ x _ => hread t.name x) r
  have same := h.same
  rw [restrict_eq_prune used] at same
  rw [restrict_eq_prune, ← through r, same, through r']

/-- Alike records look the same through a schema all of whose columns are used. -/
theorem conform_prune (h : s.Alike used kept r r') (catalog : Catalog schemas) (hs : s ∈ schemas)
    {shown : String → Bool} (holds : used.Holds (s.prune shown kept).parts) :
    (s.prune shown kept).conform r = (s.prune shown kept).conform r' := by
  have top : ∀ x ∈ s.names, shown x = true → used s.name x = true := fun x hx hshown =>
    holds _ (mem_parts.mpr (.inl rfl)) x
      (by rw [prune_names]; exact List.mem_filter.mpr ⟨hx, hshown⟩)
  have through (r : Record) := @conform_prune_conform_of_holds s (used s.name) shown used kept
    (catalog.distinct_parts hs) top (fun t ht => holds t (mem_parts.mpr (.inr ht))) r
  have same := h.same
  rw [restrict_eq_prune used] at same
  rw [← through r, same, through r']

theorem inRecord (h : s.Alike used kept r r') :
    AlikeIn used kept (some s) (.record r) (.record r') := by
  refine ⟨congrArg Value.record h.same, fun t ht => ?_, fun t ht => ?_⟩
  · cases ht
    exact h.narrowed
  · cases ht
    exact h.full

end Alike

/-! ### Columns that take over values -/

/-- Values of a column may be put into another column: it has no records, has the same record type,
all of it is listed, or the fields that the two record types share are listed and may in turn be put
into one another. -/
inductive Carries (lists : ColumnSet) : Option Schema → Option Schema → Prop
  | flat {b : Option Schema} : Carries lists none b
  | same {a : Option Schema} : Carries lists a a
  | listed {a : Schema} {b : Option Schema} : lists.Holds a.parts → Carries lists (some a) b
  | fields {a b : Schema} :
      (∀ c ∈ a.columns, ∀ d ∈ b.columns, d.name = c.name → lists a.name c.name = true) →
      (∀ c ∈ a.columns, ∀ d ∈ b.columns, d.name = c.name → Carries lists c.nested d.nested) →
      Carries lists (some a) (some b)

/-- Alike values are alike in the column that takes them over. -/
theorem Carries.conformIn_eq {lists : ColumnSet} {a b : Option Schema} (h : Carries lists a b)
    (catalog : Catalog schemas) (within : Within schemas used kept)
    (hlists : ∀ n x, lists n x = true → used n x = true) (ha : ∀ s ∈ a, s ∈ schemas) {v w : Value}
    (alike : AlikeIn used kept a v w) :
    conformIn (b.map (restrict used)) v = conformIn (b.map (restrict used)) w := by
  induction h generalizing v w with
  | flat => exact congrArg _ alike.same
  | same => exact alike.same
  | @listed a b holds =>
    have eq := @Value.mapRecords_transfer _ _ _ id (fun r r' hr hr' he =>
      Alike.eq_of_holds ⟨he, hr, hr'⟩ catalog within (ha a rfl)
        fun t ht x hx => hlists t.name x (holds t ht x hx)) v w (alike.narrowed a rfl)
      (alike.full a rfl) alike.same
    rw [Value.mapRecords_id, Value.mapRecords_id] at eq
    rw [eq]
  | @fields a b shared _ ih =>
    have hs := ha a rfl
    refine Value.mapRecords_transfer (fun r r' hr hr' he => ?_) v w (alike.narrowed a rfl)
      (alike.full a rfl) alike.same
    have records : a.Alike used kept r r' := ⟨he, hr, hr'⟩
    rw [restrict_eq_prune, conform_prune_eq_iff]
    intro d hd _
    by_cases hx : d.name ∈ a.names
    · obtain ⟨c, hc, hn⟩ := List.mem_map.mp hx
      have inside := records.column catalog within hs hc (hlists _ _ (shared c hc d hd hn.symm))
      have taken := ih c hc d hd hn.symm
        (fun t ht => catalog.closed a hs t (Column.mem_partsAll_of_nested hc ht)) inside
      rw [Column.conform_eq, Column.conform_eq, Column.restrict_nested, ← hn]
      exact taken
    · obtain ⟨hr, hr'⟩ := records.absent hx
      rw [hr, hr']

end Schema

end RecordFlow
