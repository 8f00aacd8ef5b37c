import Mathlib.Data.List.Perm.Basic
import RecordFlow.Proofs.Memory.Grouping
import RecordFlow.Proofs.Schema.Restrict
import RecordFlow.Proofs.Value.Fields
import RecordFlow.Proofs.Value.Order

/-! What an aggregation returns for a group at one entry of the layout, as far as it is a scalar, and
the values that it is made of. Orders of these values are orders of the records. -/

namespace RecordFlow

/-- No schema changes a scalar. -/
theorem Column.conform_of_isScalar (c : Column) {v : Value} (scalar : v.isScalar = true) :
    c.conform v = v := by
  obtain ⟨_, _, _, _ | nested⟩ := c
  · rfl
  · cases v with
    | list | record => cases scalar
    | _ => rfl

namespace Memory

open Aggregation (Layout)

variable {builder : Record → Aggregation} {layout : Layout} {schema : Schema}
  {records records' : List Record} {keys : List Value} {i : Nat} {kind : AggregationKind}
  {name : String} {v : Value}

/-- The values of a group at a position of the layout, in the order of the records. -/
def valuesAt (builder : Record → Aggregation) (layout : Layout) (records : List Record)
    (keys : List Value) (i : Nat) : List Value :=
  column (groupRows layout (rowsOf builder records) keys) i

/-- The record of a group before a schema shapes it. -/
def reducedRecord (builder : Record → Aggregation) (layout : Layout) (records : List Record)
    (keys : List Value) : Record :=
  groupRecord layout keys (groupRows layout (rowsOf builder records) keys)

/-- The aggregation succeeds, and the record that it returns for the keys is made from one with the
value at the position; it shows the value wherever the schema has a column of the name. -/
structure Returns (builder : Record → Aggregation) (layout : Layout) (schema : Schema)
    (records : List Record) (keys : List Value) (i : Nat) (name : String) (v : Value) : Prop where
  returned : ∃ out : List Record, aggregate records builder layout schema = .ok out ∧
    ∃ g : Nat, (groupKeys layout (rowsOf builder records))[g]? = some keys ∧
      out[g]? = some (schema.conform (reducedRecord builder layout records keys))
  held : (reducedRecord builder layout records keys).fields[i]? = some (name, v)
  shown : (layout.entries.map (·.2)).Nodup → schema.names.Nodup → name ∈ schema.names →
    (schema.conform (reducedRecord builder layout records keys)).value name = v

theorem reducedRecord_names : (reducedRecord builder layout records keys).names =
    layout.entries.map (·.2) := by
  refine List.ext_getElem? fun i => ?_
  rw [Record.names, reducedRecord, groupRecord, List.getElem?_map, List.getElem?_mapIdx,
    List.getElem?_map, Option.map_map]
  rfl

theorem returns_of_fits (fit : ∀ r ∈ records, layout.Fits (builder r))
    (group : keys ∈ groupKeys layout (rowsOf builder records))
    (entry : layout.entries[i]? = some (kind, name)) (scalar : v.isScalar = true)
    (made : Accumulator.ofColumn kind (keyAt layout keys i)
      (valuesAt builder layout records keys i) = v) :
    Returns builder layout schema records keys i name v := by
  have held : (reducedRecord builder layout records keys).fields[i]? = some (name, v) := by
    rw [reducedRecord, groupRecord, List.getElem?_mapIdx, entry]
    exact congrArg (fun v => some (name, v)) made
  refine ⟨⟨_, aggregate_of_fits fit, ?_⟩, held, fun distinct shows hname => ?_⟩
  · obtain ⟨g, at_g⟩ := List.mem_iff_getElem?.mp group
    exact ⟨g, at_g, by rw [List.getElem?_map, at_g]; rfl⟩
  · obtain ⟨c, hc, rfl⟩ := List.mem_map.mp hname
    rw [← @reducedRecord_names builder layout records keys] at distinct
    rw [Schema.value_conform shows _ hc, Record.value, Record.get?,
      lookup_of_mem distinct (List.mem_of_getElem? held)]
    exact c.conform_of_isScalar scalar

/-! ### Orders -/

theorem valuesAt_eq : valuesAt builder layout records keys i =
    (records.filter fun r => keysOf layout (builder r).values = keys).map
      fun r => (builder r).values.getD i .null := by
  rw [valuesAt, column, groupRows, rowsOf, List.filter_map, List.map_map]
  rfl

theorem valuesAt_perm (h : records'.Perm records) :
    (valuesAt builder layout records' keys i).Perm (valuesAt builder layout records keys i) := by
  rw [valuesAt_eq, valuesAt_eq]
  exact (h.filter _).map _

theorem mem_groupKeys_perm (h : records'.Perm records) :
    keys ∈ groupKeys layout (rowsOf builder records') ↔
      keys ∈ groupKeys layout (rowsOf builder records) := by
  unfold groupKeys
  split
  · simp only [List.mem_eraseDups]
    exact ((h.map _).map _).mem_iff
  · rfl

theorem exists_perm_map {α β : Type} (f : α → β) {l : List α} {ys : List β}
    (h : ys.Perm (l.map f)) : ∃ l' : List α, l'.Perm l ∧ l'.map f = ys := by
  have same : List.Forall₂ (fun y x => y = f x) (l.map f) l :=
    List.forall₂_map_left_iff.mpr (List.forall₂_same.mpr fun _ _ => rfl)
  obtain ⟨l', images, perm⟩ := List.perm_comp_forall₂ h same
  exact ⟨l', perm, (List.forall₂_eq_eq_eq ▸ List.forall₂_map_right_iff.mpr images).symm⟩

/-- Any order of the values of a group that are not null comes from an order of the records. -/
theorem exists_perm_present {vs : List Value}
    (h : vs.Perm (Accumulator.present (valuesAt builder layout records keys i))) :
    ∃ records', records'.Perm records ∧
      Accumulator.present (valuesAt builder layout records' keys i) = vs := by
  let value (r : Record) : Value := (builder r).values.getD i .null
  let counts (r : Record) : Bool := !(value r).isNull && keysOf layout (builder r).values = keys
  have present_eq (rs : List Record) :
      Accumulator.present (valuesAt builder layout rs keys i) = (rs.filter counts).map value := by
    rw [valuesAt_eq, Accumulator.present, List.filter_map, List.filter_filter]
    rfl
  rw [present_eq] at h
  obtain ⟨counted, perm, rfl⟩ := exists_perm_map value h
  -- The records that count come first, in their new order.
  refine ⟨counted ++ records.filter (!counts ·),
    (perm.append_right _).trans (List.filter_append_perm counts records), ?_⟩
  have all : counted.filter counts = counted :=
    List.filter_eq_self.mpr fun r hr => (List.mem_filter.mp (perm.mem_iff.mp hr)).2
  have none : (records.filter (!counts ·)).filter counts = [] :=
    List.filter_eq_nil_iff.mpr fun r hr => by simpa using (List.mem_filter.mp hr).2
  rw [present_eq, List.filter_append, all, none, List.append_nil]

end Memory

end RecordFlow
