import Mathlib.Data.List.Forall2
import RecordFlow.Proofs.Schema.Restrict

/-! Records that a schema shapes already: shaping leaves them as they are, and they have its columns
at every depth. -/

namespace RecordFlow

/-! ### Shaping twice -/

/-- A schema that shapes its own results no further. -/
structure Schema.Stable (s : Schema) : Prop where
  distinct : s.names.Nodup
  columns : ∀ c ∈ s.columns, ∀ v, c.conform (c.conform v) = c.conform v

namespace Schema

variable {s : Schema}

theorem Stable.conform_conform (h : s.Stable) (r : Record) :
    s.conform (s.conform r) = s.conform r :=
  conform_conform_of_columns h.distinct (fun c hc => ⟨c, hc, rfl, h.columns c hc⟩) r

theorem prune_stable (shown : String → Bool) (kept : ColumnSet)
    (distinct : ∀ t ∈ s.parts, t.names.Nodup) : (s.prune shown kept).Stable := by
  refine ⟨?_, fun c hc v => ?_⟩
  · rw [prune_names]
    exact (distinct s (mem_parts.mpr (.inl rfl))).sublist List.filter_sublist
  · obtain ⟨d, hd, rfl⟩ := List.mem_map.mp hc
    have within : Within (Column.partsAll s.columns) kept kept := fun _ _ _ _ h => h
    refine Column.conform_restrict (fun t ht => distinct t (mem_parts.mpr (.inr ht))) d
      (List.mem_filter.mp hd).1 (within.holds fun c hc => ?_) v
    exact ⟨d, (List.mem_filter.mp hd).1, List.mem_singleton.mp hc⟩

theorem map_lookup_of_forall₂ {cs : List Column} {fields : List (String × Value)}
    (h : List.Forall₂ (fun c f => f.1 = c.name ∧ c.conform f.2 = f.2) cs fields)
    (distinct : (cs.map (·.name)).Nodup) :
    cs.map (fun c => (c.name, c.conform ((fields.lookup c.name).getD .null))) = fields := by
  induction h with
  | nil => rfl
  | @cons c f cs fields first _ ih =>
    obtain ⟨name, v⟩ := f
    obtain ⟨rfl, shaped⟩ := first
    rw [List.map_cons, List.nodup_cons] at distinct
    have others : ∀ d ∈ cs, ((c.name, v) :: fields).lookup d.name = fields.lookup d.name := by
      intro d hd
      have ne : d.name ≠ c.name := fun he => distinct.1 (he ▸ List.mem_map_of_mem hd)
      rw [lookup_cons_eq, if_neg ne]
    rw [List.map_cons, List.map_congr_left fun d hd => by rw [others d hd], ih distinct.2]
    simp [shaped]

/-- Records made column by column of shaped values are shaped. -/
theorem Stable.conform_of_forall₂ (h : s.Stable) {fields : List (String × Value)}
    (hf : List.Forall₂ (fun c f => f.1 = c.name ∧ c.conform f.2 = f.2) s.columns fields) :
    s.conform ⟨fields⟩ = ⟨fields⟩ := by
  rw [conform_eq]
  exact congrArg Record.mk (map_lookup_of_forall₂ hf h.distinct)

end Schema

/-! ### The columns at every depth -/

mutual

/-- Whether all records reached through lists alone are as told. -/
def Value.EveryRecord (P : Record → Prop) : Value → Prop
  | .record r => P r
  | .list items => Value.EveryRecordAll P items
  | _ => True

def Value.EveryRecordAll (P : Record → Prop) : List Value → Prop
  | [] => True
  | v :: vs => v.EveryRecord P ∧ Value.EveryRecordAll P vs

end

mutual

/-- The fields of a record are the columns of a schema in their order, and the records in each are
shaped by what is nested in the column. -/
def Schema.Shapes : Schema → Record → Prop
  | ⟨_, columns⟩, r => Column.ShapesAll columns r.fields

def Column.ShapesAll : List Column → List (String × Value) → Prop
  | [], fields => fields = []
  | c :: cs, fields =>
    ∃ v rest, fields = (c.name, v) :: rest ∧ c.Shapes v ∧ Column.ShapesAll cs rest

def Column.Shapes : Column → Value → Prop
  | ⟨_, _, _, none⟩, _ => True
  | ⟨_, _, _, some nested⟩, v => v.EveryRecord nested.Shapes

end

mutual

theorem Value.everyRecord_mapRecords {P : Record → Prop} {f : Record → Record} (h : ∀ r, P (f r)) :
    ∀ v : Value, (v.mapRecords f).EveryRecord P
  | .record r => h r
  | .list items => Value.everyRecordAll_mapRecordsAll h items
  | .null | .bool _ | .int _ | .float _ | .text _ | .bytes _ => trivial

theorem Value.everyRecordAll_mapRecordsAll {P : Record → Prop} {f : Record → Record}
    (h : ∀ r, P (f r)) : ∀ vs : List Value, Value.EveryRecordAll P (Value.mapRecordsAll f vs)
  | [] => trivial
  | v :: vs => ⟨Value.everyRecord_mapRecords h v, Value.everyRecordAll_mapRecordsAll h vs⟩

end

mutual

/-- What a schema makes of a record has its columns. -/
theorem Schema.shapes_conform : ∀ (s : Schema) (r : Record), s.Shapes (s.conform r)
  | ⟨_, columns⟩, r => Column.shapesAll_conformAll columns r

theorem Column.shapesAll_conformAll : ∀ (cs : List Column) (r : Record),
    Column.ShapesAll cs (Column.conformAll cs r)
  | [], _ => rfl
  | c :: cs, r => ⟨_, _, rfl, Column.shapes_conform c _, Column.shapesAll_conformAll cs r⟩

theorem Column.shapes_conform : ∀ (c : Column) (v : Value), c.Shapes (c.conform v)
  | ⟨_, _, _, none⟩, _ => trivial
  | ⟨_, _, _, some nested⟩, v =>
    Value.everyRecord_mapRecords (fun r => Schema.shapes_conform nested r) v

end

end RecordFlow
