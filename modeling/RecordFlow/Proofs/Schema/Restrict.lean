import RecordFlow.Proofs.Schema.Parts
import RecordFlow.Proofs.Value.Fields
import RecordFlow.Schema.Conform

/-! Schemas with fewer columns, and the records they shape. Shaping a record by fewer columns gives
the same result whether or not it was shaped by more of them before. -/

namespace RecordFlow

/-- Columns, by the name of their record type and their own. -/
abbrev ColumnSet := String → String → Bool

abbrev ColumnSet.all : ColumnSet := fun _ _ => true

mutual

/-- Keeps columns at every depth. -/
def Schema.restrict (kept : ColumnSet) : Schema → Schema
  | ⟨name, columns⟩ => ⟨name, Column.restrictAll kept name columns⟩

/-- Keeps columns in the schema nested in a column. -/
def Column.restrict (kept : ColumnSet) : Column → Column
  | ⟨name, type, nullable, none⟩ => ⟨name, type, nullable, none⟩
  | ⟨name, type, nullable, some nested⟩ => ⟨name, type, nullable, some (nested.restrict kept)⟩

def Column.restrictAll (kept : ColumnSet) (record : String) : List Column → List Column
  | [] => []
  | c :: cs =>
    if kept record c.name then c.restrict kept :: Column.restrictAll kept record cs
    else Column.restrictAll kept record cs

end

/-- Keeps the columns that are shown, and other columns in what is nested in these. -/
def Schema.prune (shown : String → Bool) (kept : ColumnSet) (s : Schema) : Schema :=
  ⟨s.name, (s.columns.filter (shown ·.name)).map (Column.restrict kept)⟩

/-! ### Columns that are kept -/

namespace Column

@[simp] theorem restrict_name (kept : ColumnSet) (c : Column) :
    (c.restrict kept).name = c.name := by
  obtain ⟨name, type, nullable, nested⟩ := c
  cases nested <;> rfl

theorem restrictAll_eq (kept : ColumnSet) (record : String) (cs : List Column) :
    restrictAll kept record cs = (cs.filter (kept record ·.name)).map (restrict kept) := by
  induction cs with
  | nil => rfl
  | cons c rest ih =>
    simp only [restrictAll, ih, List.filter_cons]
    split <;> rfl

end Column

namespace Schema

variable {s : Schema} {shown shown' : String → Bool} {kept kept' : ColumnSet}

theorem restrict_eq_prune (kept : ColumnSet) (s : Schema) :
    s.restrict kept = s.prune (kept s.name) kept := by
  cases s
  simp only [restrict, prune, Column.restrictAll_eq]

@[simp] theorem prune_name : (s.prune shown kept).name = s.name := rfl

@[simp] theorem prune_names : (s.prune shown kept).names = s.names.filter shown := by
  simp only [prune, names, List.map_map, List.filter_map]
  exact List.map_congr_left fun c _ => Column.restrict_name kept c

@[simp] theorem restrict_name (kept : ColumnSet) (s : Schema) :
    (s.restrict kept).name = s.name := by
  rw [restrict_eq_prune, prune_name]

theorem restrict_names (kept : ColumnSet) (s : Schema) :
    (s.restrict kept).names = s.names.filter (kept s.name) := by
  rw [restrict_eq_prune, prune_names]

theorem mem_names {c : Column} (hc : c ∈ s.columns) : c.name ∈ s.names := List.mem_map_of_mem hc

/-- What is nested in the columns of some schemas, and agreed on there. -/
def AgreeOn (parts : List Schema) (kept kept' : ColumnSet) : Prop :=
  ∀ t ∈ parts, ∀ x ∈ t.names, kept t.name x = kept' t.name x

end Schema

/-- All columns of some schemas are in the set. -/
def ColumnSet.Holds (kept : ColumnSet) (parts : List Schema) : Prop :=
  ∀ t ∈ parts, ∀ x ∈ t.names, kept t.name x = true

theorem ColumnSet.holds_cons {kept : ColumnSet} {s : Schema} {parts : List Schema} :
    kept.Holds (s :: parts) ↔ (∀ x ∈ s.names, kept s.name x = true) ∧ kept.Holds parts :=
  List.forall_mem_cons

theorem Column.restrict_congr {kept kept' : ColumnSet} {cs : List Column}
    (h : Schema.AgreeOn (partsAll cs) kept kept') :
    ∀ c ∈ cs, c.restrict kept = c.restrict kept' := by
  induction cs using Column.induction with
  | nil => simp
  | flat name type nullable rest ih =>
    intro c hc
    rcases List.mem_cons.mp hc with rfl | hc
    · rfl
    · exact ih h c hc
  | nested name type nullable record inner rest ihInner ihRest =>
    simp only [Schema.AgreeOn, partsAll_nested, List.mem_cons, List.mem_append] at h
    have here := h ⟨record, inner⟩ (.inl rfl)
    have inside := ihInner fun t ht => h t (.inr (.inl ht))
    intro c hc
    rcases List.mem_cons.mp hc with rfl | hc
    · simp only [restrict, Schema.restrict, restrictAll_eq]
      have shown : inner.filter (kept record ·.name) = inner.filter (kept' record ·.name) :=
        List.filter_congr fun c hc => here c.name (Schema.mem_names (s := ⟨record, inner⟩) hc)
      rw [shown, List.map_congr_left fun c hc => inside c (List.mem_filter.mp hc).1]
    · exact ihRest (fun t ht => h t (.inr (.inr ht))) c hc

/-- A schema stays as it is just if all is shown and its columns stay as they are. -/
theorem Schema.prune_eq_self_iff {s : Schema} {shown : String → Bool} {kept : ColumnSet} :
    s.prune shown kept = s ↔
      (∀ x ∈ s.names, shown x = true) ∧ ∀ c ∈ s.columns, c.restrict kept = c := by
  have whole (shows : ∀ x ∈ s.names, shown x = true) :
      s.columns.filter (shown ·.name) = s.columns :=
    List.filter_eq_self.mpr fun c hc => shows c.name (mem_names hc)
  constructor
  · intro same
    have shows : ∀ x ∈ s.names, shown x = true := by
      have names := congrArg Schema.names same
      rw [prune_names] at names
      exact List.filter_eq_self.mp names
    refine ⟨shows, fun c hc => ?_⟩
    have columns := congrArg Schema.columns same
    rw [prune, whole shows] at columns
    exact List.map_inj_left.mp (columns.trans (List.map_id' _).symm) c hc
  · rintro ⟨shows, stay⟩
    rw [prune, whole shows, List.map_congr_left stay, List.map_id']
    cases s
    rfl

/-- Columns stay as they are just if nothing nested in them is dropped. -/
theorem Column.restrict_eq_self_iff {kept : ColumnSet} {cs : List Column} :
    (∀ c ∈ cs, c.restrict kept = c) ↔ kept.Holds (partsAll cs) := by
  induction cs using Column.induction with
  | nil => simp [ColumnSet.Holds]
  | flat name type nullable rest ih =>
    rw [List.forall_mem_cons, ih, partsAll_flat]
    exact and_iff_right rfl
  | nested name type nullable record inner rest ihInner ihRest =>
    have here : Column.restrict kept ⟨name, type, nullable, some ⟨record, inner⟩⟩ =
        ⟨name, type, nullable, some ⟨record, inner⟩⟩ ↔
          (Schema.mk record inner).restrict kept = ⟨record, inner⟩ := by
      simp only [restrict, Column.mk.injEq, Option.some.injEq, true_and]
    have split : kept.Holds (partsAll inner ++ partsAll rest) ↔
        kept.Holds (partsAll inner) ∧ kept.Holds (partsAll rest) := List.forall_mem_append
    rw [List.forall_mem_cons, here, Schema.restrict_eq_prune, Schema.prune_eq_self_iff, ihInner,
      ihRest, partsAll_nested, ColumnSet.holds_cons, split, and_assoc]

/-- What is nested in a restricted column is nested in the column, and restricted. -/
theorem Column.mem_partsAll_restrict {kept : ColumnSet} (c : Column) {t : Schema}
    (h : t ∈ partsAll [c.restrict kept]) : ∃ u ∈ partsAll [c], t = u.restrict kept := by
  suffices columns : ∀ cs : List Column, ∀ c ∈ cs, ∀ t ∈ partsAll [c.restrict kept],
      ∃ u ∈ partsAll [c], t = u.restrict kept from columns [c] c (List.mem_singleton_self c) t h
  intro cs
  induction cs using Column.induction with
  | nil => simp
  | flat name type nullable rest ih =>
    intro c hc t ht
    rcases List.mem_cons.mp hc with rfl | hc
    · cases ht
    · exact ih c hc t ht
  | nested name type nullable record inner rest ihInner ihRest =>
    intro c hc t ht
    rcases List.mem_cons.mp hc with rfl | hc
    · simp only [restrict, Schema.restrict, partsAll_nested, partsAll_nil, List.append_nil,
        List.mem_cons] at ht
      rcases ht with rfl | ht
      · exact ⟨⟨record, inner⟩, by simp, rfl⟩
      · rw [restrictAll_eq] at ht
        obtain ⟨d, hd, ht⟩ := mem_partsAll.mp ht
        obtain ⟨e, he, rfl⟩ := List.mem_map.mp hd
        have hinner := (List.mem_filter.mp he).1
        obtain ⟨u, hu, rfl⟩ := ihInner e hinner t ht
        have : u ∈ partsAll inner := mem_partsAll.mpr ⟨e, hinner, hu⟩
        exact ⟨u, by simp [this], rfl⟩
    · exact ihRest c hc t ht

namespace Schema

variable {s : Schema} {shown shown' : String → Bool} {kept kept' : ColumnSet}

theorem prune_congr (hs : ∀ x ∈ s.names, shown x = shown' x)
    (hk : AgreeOn (Column.partsAll s.columns) kept kept') :
    s.prune shown kept = s.prune shown' kept' := by
  have columns : s.columns.filter (shown ·.name) = s.columns.filter (shown' ·.name) :=
    List.filter_congr fun c hc => hs c.name (mem_names hc)
  simp only [prune, columns]
  rw [List.map_congr_left fun c hc => Column.restrict_congr hk c (List.mem_filter.mp hc).1]

theorem prune_eq_self (hs : ∀ x ∈ s.names, shown x = true)
    (hk : kept.Holds (Column.partsAll s.columns)) : s.prune shown kept = s :=
  prune_eq_self_iff.mpr ⟨hs, Column.restrict_eq_self_iff.mpr hk⟩

/-- What is nested in a pruned schema is nested in the schema, and restricted. -/
theorem mem_partsAll_prune {t : Schema} (h : t ∈ Column.partsAll (s.prune shown kept).columns) :
    ∃ u ∈ Column.partsAll s.columns, t = u.restrict kept := by
  obtain ⟨c, hc, ht⟩ := Column.mem_partsAll.mp h
  obtain ⟨d, hd, rfl⟩ := List.mem_map.mp hc
  obtain ⟨u, hu, rfl⟩ := Column.mem_partsAll_restrict d ht
  exact ⟨u, Column.mem_partsAll.mpr ⟨d, (List.mem_filter.mp hd).1, hu⟩, rfl⟩

theorem prune_all (s : Schema) : s.prune (fun _ => true) .all = s :=
  prune_eq_self (fun _ _ => rfl) fun _ _ _ _ => rfl

end Schema

/-! ### Shaping records -/

mutual

theorem Value.mapRecords_mapRecords (f g : Record → Record) : ∀ v : Value,
    (v.mapRecords g).mapRecords f = v.mapRecords fun r => f (g r)
  | .list items => by simp only [Value.mapRecords, Value.mapRecordsAll_mapRecordsAll f g items]
  | .record r => rfl
  | .null | .bool _ | .int _ | .float _ | .text _ | .bytes _ => rfl

theorem Value.mapRecordsAll_mapRecordsAll (f g : Record → Record) : ∀ vs : List Value,
    Value.mapRecordsAll f (Value.mapRecordsAll g vs) = Value.mapRecordsAll (fun r => f (g r)) vs
  | [] => rfl
  | v :: vs => by
    simp only [Value.mapRecordsAll, Value.mapRecords_mapRecords f g v,
      Value.mapRecordsAll_mapRecordsAll f g vs]

end

theorem Value.mapRecordsAll_eq (f : Record → Record) (vs : List Value) :
    Value.mapRecordsAll f vs = vs.map (Value.mapRecords f) := by
  induction vs with
  | nil => rfl
  | cons v rest ih => simp only [Value.mapRecordsAll, ih, List.map_cons]

theorem Column.conform_null (c : Column) : c.conform .null = .null := by
  obtain ⟨name, type, nullable, nested⟩ := c
  cases nested <;> rfl

namespace Schema

variable {s : Schema} {shown shown' : String → Bool} {kept kept' : ColumnSet}

theorem conformAll_eq (cs : List Column) (r : Record) :
    Column.conformAll cs r = cs.map fun c => (c.name, c.conform (r.value c.name)) := by
  induction cs with
  | nil => rfl
  | cons c rest ih => simp only [Column.conformAll, ih, List.map_cons]

theorem conform_eq (s : Schema) (r : Record) :
    s.conform r = ⟨s.columns.map fun c => (c.name, c.conform (r.value c.name))⟩ := by
  cases s
  simp only [conform, conformAll_eq]

theorem lookup_map_columns {cs : List Column} (distinct : (cs.map (·.name)).Nodup)
    (f : Column → Value) {c : Column} (hc : c ∈ cs) :
    (cs.map fun c => (c.name, f c)).lookup c.name = some (f c) := by
  refine lookup_of_mem ?_ (List.mem_map_of_mem (f := fun c => (c.name, f c)) hc)
  rwa [List.map_map]

theorem lookup_map_columns_of_not_mem {cs : List Column} (f : Column → Value) {x : String}
    (hx : x ∉ cs.map (·.name)) : (cs.map fun c => (c.name, f c)).lookup x = none := by
  refine lookup_of_not_mem ?_
  rwa [List.map_map]

/-- The value of a column in a shaped record. -/
theorem value_conform {s : Schema} (distinct : s.names.Nodup) (r : Record) {c : Column}
    (hc : c ∈ s.columns) : (s.conform r).value c.name = c.conform (r.value c.name) := by
  rw [conform_eq, Record.value, Record.get?,
    lookup_map_columns distinct (fun c => c.conform (r.value c.name)) hc]
  rfl

theorem value_conform_of_not_mem {s : Schema} (r : Record) {x : String} (hx : x ∉ s.names) :
    (s.conform r).value x = .null := by
  rw [conform_eq, Record.value, Record.get?,
    lookup_map_columns_of_not_mem (fun c => c.conform (r.value c.name)) hx]
  rfl

/-- Shaping by fewer columns after more makes no difference if it makes none in any of the fewer. -/
theorem conform_conform_of_columns {s t : Schema} (distinct : s.names.Nodup)
    (columns : ∀ d ∈ t.columns, ∃ c ∈ s.columns, d.name = c.name ∧
      ∀ v, d.conform (c.conform v) = d.conform v) (r : Record) :
    t.conform (s.conform r) = t.conform r := by
  rw [conform_eq t, conform_eq t]
  refine congrArg Record.mk (List.map_congr_left fun d hd => ?_)
  obtain ⟨c, hc, name, same⟩ := columns d hd
  rw [name, value_conform distinct r hc, same]

theorem conform_prune (kept : ColumnSet) (shown : String → Bool) (s : Schema) (r : Record) :
    (s.prune shown kept).conform r =
      ⟨(s.columns.filter (shown ·.name)).map fun c =>
        (c.name, (c.restrict kept).conform (r.value c.name))⟩ := by
  rw [conform_eq]
  simp only [prune, List.map_map]
  refine congrArg Record.mk (List.map_congr_left fun c _ => ?_)
  simp only [Function.comp_apply, Column.restrict_name]

/-- The value of a column that is shown. -/
theorem value_conform_prune (distinct : s.names.Nodup) (r : Record) {c : Column}
    (hc : c ∈ s.columns) (hshown : shown c.name = true) :
    ((s.prune shown kept).conform r).value c.name = (c.restrict kept).conform (r.value c.name) := by
  have names : (s.prune shown kept).names.Nodup := by
    rw [prune_names]
    exact distinct.sublist List.filter_sublist
  have hmem : c.restrict kept ∈ (s.prune shown kept).columns :=
    List.mem_map_of_mem (List.mem_filter.mpr ⟨hc, hshown⟩)
  simpa only [Column.restrict_name] using value_conform names r hmem

theorem conform_prune_conform_of_columns (distinct : s.names.Nodup)
    (hs : ∀ x ∈ s.names, shown' x = true → shown x = true)
    (columns : ∀ c ∈ s.columns, shown' c.name = true → ∀ v,
      (c.restrict kept').conform ((c.restrict kept).conform v) = (c.restrict kept').conform v)
    (r : Record) :
    (s.prune shown' kept').conform ((s.prune shown kept).conform r) =
      (s.prune shown' kept').conform r := by
  have names : (s.prune shown kept).names.Nodup := by
    rw [prune_names]
    exact distinct.sublist List.filter_sublist
  refine conform_conform_of_columns names (fun d hd => ?_) r
  obtain ⟨c, hc, rfl⟩ := List.mem_map.mp hd
  obtain ⟨hc, hshown⟩ := List.mem_filter.mp hc
  refine ⟨c.restrict kept, List.mem_map_of_mem (List.mem_filter.mpr ⟨hc, ?_⟩), ?_, columns c hc hshown⟩
  · exact hs c.name (mem_names hc) hshown
  · rw [Column.restrict_name, Column.restrict_name]

end Schema

/-- One column at a time: what is shaped by more columns before makes no difference. -/
theorem Column.conform_restrict {kept kept' : ColumnSet} {cs : List Column}
    (distinct : ∀ t ∈ partsAll cs, t.names.Nodup) :
    ∀ c ∈ cs, kept.Holds (partsAll [c.restrict kept']) → ∀ v,
      (c.restrict kept').conform ((c.restrict kept).conform v) = (c.restrict kept').conform v := by
  induction cs using Column.induction with
  | nil => simp
  | flat name type nullable rest ih =>
    intro c hc holds v
    rcases List.mem_cons.mp hc with rfl | hc
    · rfl
    · exact ih distinct c hc holds v
  | nested name type nullable record inner rest ihInner ihRest =>
    simp only [partsAll_nested, List.mem_cons, List.mem_append] at distinct
    have inside := ihInner fun t ht => distinct t (.inr (.inl ht))
    intro c hc holds v
    rcases List.mem_cons.mp hc with rfl | hc
    · have names : (Schema.mk record (restrictAll kept' record inner)).names =
          (Schema.mk record inner).names.filter (kept' record) :=
        Schema.restrict_names kept' ⟨record, inner⟩
      simp only [restrict, Schema.restrict, partsAll_nested, ColumnSet.holds_cons, names] at holds
      have here := @Schema.conform_prune_conform_of_columns ⟨record, inner⟩ (kept record)
        (kept' record) kept kept' (distinct _ (.inl rfl))
        (fun x hx hkept => holds.1 x (List.mem_filter.mpr ⟨hx, hkept⟩)) fun c hc hkept =>
          inside c hc fun t ht => by
            refine holds.2 t (List.mem_append_left _ (mem_partsAll.mpr ⟨_, ?_, ht⟩))
            rw [restrictAll_eq]
            exact List.mem_map_of_mem (List.mem_filter.mpr ⟨hc, hkept⟩)
      simp only [restrict, conform, Value.mapRecords_mapRecords, Schema.restrict_eq_prune, here]
    · exact ihRest (fun t ht => distinct t (.inr (.inr ht))) c hc holds v

namespace Schema

variable {s : Schema} {shown shown' : String → Bool} {kept kept' : ColumnSet}

/-- Records shaped by fewer columns look the same whether shaped by more before or not: what counts
are the columns that are still there in the end. -/
theorem conform_prune_conform_of_holds (distinct : ∀ t ∈ s.parts, t.names.Nodup)
    (hs : ∀ x ∈ s.names, shown' x = true → shown x = true)
    (hk : kept.Holds (Column.partsAll (s.prune shown' kept').columns)) (r : Record) :
    (s.prune shown' kept').conform ((s.prune shown kept).conform r) =
      (s.prune shown' kept').conform r := by
  refine conform_prune_conform_of_columns (distinct s (mem_parts.mpr (.inl rfl))) hs
    (fun c hc hshown => ?_) r
  refine Column.conform_restrict (fun t ht => distinct t (mem_parts.mpr (.inr ht))) c hc ?_
  refine fun t ht => hk t (Column.mem_partsAll.mpr ⟨_, ?_, ht⟩)
  exact List.mem_map_of_mem (List.mem_filter.mpr ⟨hc, hshown⟩)

/-- Whatever `kept'` keeps of some schemas is kept by `kept`. -/
def Within (parts : List Schema) (kept' kept : ColumnSet) : Prop :=
  ∀ t ∈ parts, ∀ x ∈ t.names, kept' t.name x = true → kept t.name x = true

theorem Within.holds {cs : List Column} (h : Within (Column.partsAll cs) kept' kept)
    {cs' : List Column} (hcs : ∀ c ∈ cs', ∃ d ∈ cs, c = d.restrict kept') :
    kept.Holds (Column.partsAll cs') := by
  intro t ht x hx
  obtain ⟨c, hc, ht⟩ := Column.mem_partsAll.mp ht
  obtain ⟨d, hd, rfl⟩ := hcs c hc
  obtain ⟨u, hu, rfl⟩ := Column.mem_partsAll_restrict d ht
  rw [restrict_names, List.mem_filter] at hx
  rw [restrict_name]
  exact h u (Column.mem_partsAll.mpr ⟨d, hd, hu⟩) x hx.1 hx.2

theorem conform_prune_conform (distinct : ∀ t ∈ s.parts, t.names.Nodup)
    (hs : ∀ x ∈ s.names, shown' x = true → shown x = true)
    (hk : Within (Column.partsAll s.columns) kept' kept) (r : Record) :
    (s.prune shown' kept').conform ((s.prune shown kept).conform r) =
      (s.prune shown' kept').conform r := by
  refine conform_prune_conform_of_holds distinct hs (hk.holds fun c hc => ?_) r
  obtain ⟨d, hd, rfl⟩ := List.mem_map.mp hc
  exact ⟨d, (List.mem_filter.mp hd).1, rfl⟩

/-- Two records look the same through a pruned schema if they do in every column shown. -/
theorem conform_prune_eq_iff {r r' : Record} :
    (s.prune shown kept).conform r = (s.prune shown kept).conform r' ↔
      ∀ c ∈ s.columns, shown c.name = true →
        (c.restrict kept).conform (r.value c.name) =
          (c.restrict kept).conform (r'.value c.name) := by
  simp only [conform_prune, Record.mk.injEq, List.map_inj_left, List.mem_filter, Prod.mk.injEq,
    true_and, and_imp]

end Schema

end RecordFlow
