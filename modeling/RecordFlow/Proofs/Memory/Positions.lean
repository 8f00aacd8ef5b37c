import RecordFlow.Proofs.Memory.Entries

/-! Where the values of rows are kept. A layout is decoded with the names of the entries and checked
without them, and values are kept by position. Main statement: what the check accepts is what is
decoded to the same layout, but for the names, and the values of the entries at a position become the
field of the layout there. -/

namespace RecordFlow.Memory

open Aggregation (Layout Entry)

variable {builder : Record → Aggregation} {layout : Layout} {schema : Schema}
  {records : List Record}

/-- The aggregation succeeds, and the field at every position of a record that it returns is made,
before a schema shapes the record, from the values of the entries at the position. -/
structure KeepsByPosition (builder : Record → Aggregation) (layout : Layout) (schema : Schema)
    (records : List Record) : Prop where
  returned : aggregate records builder layout schema =
    .ok ((groupKeys layout (rowsOf builder records)).map fun keys =>
      schema.conform (reducedRecord builder layout records keys))
  field : ∀ keys i kind name, layout.entries[i]? = some (kind, name) →
    (reducedRecord builder layout records keys).fields[i]? =
      some (name, Accumulator.ofColumn kind (keyAt layout keys i)
        ((records.filter fun r => keysOf layout (builder r).values = keys).map
          fun r => (builder r).values.getD i .null))

theorem keepsByPosition_of_fits (fit : ∀ r ∈ records, layout.Fits (builder r)) :
    KeepsByPosition builder layout schema records := by
  refine ⟨aggregate_of_fits fit, fun keys i kind name entry => ?_⟩
  rw [reducedRecord, groupRecord, List.getElem?_mapIdx, entry, ← valuesAt_eq]
  rfl

/-- A row is accepted by a decoded layout just if it has the kinds of the layout in their order; it
has the layout itself just if also each of its entries names the field at its position or none. Values
are kept by position, whatever the entries name. -/
theorem check_accepts_kinds {type : RecordType} {a : Aggregation}
    (decoded : Layout.decode type a = .ok layout) :
    layout.entries.map (·.2) = type.fieldNames ∧
      (∀ b, (layout.check b = .ok () ↔ layout.Fits b) ∧
        (Layout.decode type b = .ok layout ↔
          layout.check b = .ok () ∧ List.Forall₂ Entry.StandsAt b.entries type.fieldNames)) ∧
      ∀ builder records schema, (∀ r ∈ records, layout.check (builder r) = .ok ()) →
        KeepsByPosition builder layout schema records := by
  refine ⟨?_, fun b => ⟨Layout.check_eq_ok_iff, ?_⟩, fun builder records schema accepted => ?_⟩
  · obtain ⟨-, standing, -, same⟩ := Layout.decode_eq_ok_iff.mp decoded
    rw [same, List.map_snd_zip (by simp [standing.length_eq])]
  · rw [Layout.check_eq_ok_iff]
    exact Layout.decode_eq_ok_iff_fits decoded
  · exact keepsByPosition_of_fits fun r hr => Layout.check_eq_ok_iff.mp (accepted r hr)

def ledger : RecordType := ⟨"ledger", [⟨"debit", .int64, true⟩, ⟨"credit", .int64, true⟩]⟩

def ledgerLayout : Layout := ⟨[(.sum, "debit"), (.sum, "credit")]⟩

def posted (refund : Bool) (amount : Int64) : Record :=
  ⟨[("refund", .bool refund), ("amount", .int amount)]⟩

/-- The side that an amount goes to comes first. -/
def posting (r : Record) : Aggregation :=
  if r.value "refund" = .bool true then
    ⟨[⟨.sum, "credit", r.value "amount"⟩, ⟨.sum, "debit", .int 0⟩]⟩
  else ⟨[⟨.sum, "debit", r.value "amount"⟩, ⟨.sum, "credit", .int 0⟩]⟩

/-- The names of a refund are out of order, but its kinds are not, so that it is accepted and summed
with the payments. -/
theorem ledger_accepts_kinds :
    Layout.decode ledger (posting (posted false 3)) = .ok ledgerLayout ∧
      ledgerLayout.check (posting (posted true 5)) = .ok () ∧
      ¬ List.Forall₂ Entry.StandsAt (posting (posted true 5)).entries ledger.fieldNames ∧
      aggregate [posted false 3, posted true 5] posting ledgerLayout ledger.schema =
        .ok [⟨[("debit", .int 8), ("credit", .int 0)]⟩] := by
  have decoded : Layout.decode ledger (posting (posted false 3)) = .ok ledgerLayout := rfl
  obtain ⟨-, accepts, keeps⟩ := check_accepts_kinds decoded
  obtain ⟨kinds, named⟩ := accepts (posting (posted true 5))
  have accepted : ledgerLayout.check (posting (posted true 5)) = .ok () := kinds.mpr rfl
  refine ⟨decoded, accepted, fun standing => ?_, ?_⟩
  · cases named.mpr ⟨accepted, standing⟩
  · exact (keeps posting [posted false 3, posted true 5] ledger.schema (by decide)).returned.trans rfl

/-- The credit of a refund is kept as a debit: the layout accepts a row that has another layout. -/
theorem refund_kept_as_debit :
    Layout.decode ledger (posting (posted false 3)) = .ok ledgerLayout ∧
      ledgerLayout.check (posting (posted true 5)) = .ok () ∧
      Layout.decode ledger (posting (posted true 5)) = .error (.outOfOrder 0 "debit" "credit") ∧
      (posting (posted true 5)).entries[0]? = some ⟨.sum, "credit", .int 5⟩ ∧
      aggregate [posted true 5] posting ledgerLayout ledger.schema =
        .ok [⟨[("debit", .int 5), ("credit", .int 0)]⟩] :=
  ⟨rfl, rfl, rfl, rfl, rfl⟩

end RecordFlow.Memory
