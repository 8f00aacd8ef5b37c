import RecordFlow.Proofs.Schema.Prunes
import RecordFlow.Proofs.Schema.Shaped

/-! What shaping makes of a record, said column by column at every depth. Main statement: shaping by a
schema and then by what is left of it is shaping by what is left of it, so that shaping twice is
shaping once, and the result has just the columns, null where the record has no field. -/

namespace RecordFlow

/-! ### Reshaped records -/

mutual

/-- Whether the second value is the first with every record that is reached through lists alone
replaced by a related one. -/
def Value.Relates (R : Record → Record → Prop) : Value → Value → Prop
  | .record r, w => ∃ made, w = .record made ∧ R r made
  | .list items, w => ∃ made, w = .list made ∧ Value.RelatesAll R items made
  | v, w => w = v

def Value.RelatesAll (R : Record → Record → Prop) : List Value → List Value → Prop
  | [], made => made = []
  | v :: vs, made => ∃ w rest, made = w :: rest ∧ v.Relates R w ∧ Value.RelatesAll R vs rest

end

mutual

/-- Whether the second record is the first reshaped: one field per column in their order, null where
the first has no field of the name, and the same in the records that a field holds. -/
def Schema.Reshapes : Schema → Record → Record → Prop
  | ⟨_, columns⟩, r, made => Column.ReshapesAll columns r made.fields

def Column.ReshapesAll : List Column → Record → List (String × Value) → Prop
  | [], _, made => made = []
  | c :: cs, r, made =>
    ∃ w rest, made = (c.name, w) :: rest ∧ (r.get? c.name = none → w = .null) ∧
      (∀ v, r.get? c.name = some v → c.Reshapes v w) ∧ Column.ReshapesAll cs r rest

def Column.Reshapes : Column → Value → Value → Prop
  | ⟨_, _, _, none⟩, v, w => w = v
  | ⟨_, _, _, some nested⟩, v, w => v.Relates nested.Reshapes w

end

mutual

theorem Value.relates_iff {R : Record → Record → Prop} {f : Record → Record}
    (h : ∀ r made, R r made ↔ made = f r) :
    ∀ v w : Value, v.Relates R w ↔ w = v.mapRecords f
  | .record r, w => by simp [Value.Relates, Value.mapRecords, h]
  | .list items, w => by
    simp [Value.Relates, Value.mapRecords, Value.relatesAll_iff h items]
  | .null, _ | .bool _, _ | .int _, _ | .float _, _ | .text _, _ | .bytes _, _ => Iff.rfl

theorem Value.relatesAll_iff {R : Record → Record → Prop} {f : Record → Record}
    (h : ∀ r made, R r made ↔ made = f r) :
    ∀ vs made : List Value, Value.RelatesAll R vs made ↔ made = Value.mapRecordsAll f vs
  | [], _ => Iff.rfl
  | v :: vs, made => by
    simp [Value.RelatesAll, Value.mapRecordsAll, Value.relates_iff h v,
      Value.relatesAll_iff h vs]

end

mutual

/-- Shaping makes the one record that is reshaped so. -/
theorem Schema.reshapes_iff : ∀ (s : Schema) (r made : Record),
    s.Reshapes r made ↔ made = s.conform r
  | ⟨_, columns⟩, r, ⟨fields⟩ => by
    simp [Schema.Reshapes, Schema.conform, Column.reshapesAll_iff columns r fields]

theorem Column.reshapesAll_iff : ∀ (cs : List Column) (r : Record) (made : List (String × Value)),
    Column.ReshapesAll cs r made ↔ made = Column.conformAll cs r
  | [], _, _ => Iff.rfl
  | c :: cs, r, made => by
    have field (w : Value) : ((r.get? c.name = none → w = .null) ∧
        ∀ v, r.get? c.name = some v → c.Reshapes v w) ↔ w = c.conform (r.value c.name) := by
      rw [Record.value]
      cases r.get? c.name with
      | none => simp [Column.conform_null]
      | some v => simp [Column.reshapes_iff c v w]
    constructor
    · rintro ⟨w, rest, rfl, missing, found, others⟩
      rw [(field w).mp ⟨missing, found⟩, (Column.reshapesAll_iff cs r rest).mp others]
      rfl
    · rintro rfl
      obtain ⟨missing, found⟩ := (field _).mpr rfl
      exact ⟨_, _, rfl, missing, found, (Column.reshapesAll_iff cs r _).mpr rfl⟩

theorem Column.reshapes_iff : ∀ (c : Column) (v w : Value), c.Reshapes v w ↔ w = c.conform v
  | ⟨_, _, _, none⟩, _, _ => Iff.rfl
  | ⟨_, _, _, some nested⟩, v, w =>
    Value.relates_iff (fun r made => Schema.reshapes_iff nested r made) v w

end

/-! ### Prunings -/

theorem Schema.Prunes.refl (s : Schema) : s.Prunes s := by
  have pruned := s.prunes_prune (fun _ => true) .all
  rwa [s.prune_all] at pruned

/-- Shaping by what is left of a schema gives the same record whether or not the whole schema shaped
it before; in particular shaping again changes nothing. The record has just the columns that are left,
at every depth, and nothing else is changed in it. -/
theorem Schema.Prunes.conform_along {s t : Schema} (pruned : s.Prunes t)
    (distinct : ∀ u ∈ s.parts, u.names.Nodup) (r : Record) :
    t.conform (s.conform r) = t.conform r ∧
      s.conform (s.conform r) = s.conform r ∧ t.conform (t.conform r) = t.conform r ∧
      t.Shapes (t.conform r) ∧ ∀ made, t.Reshapes r made ↔ made = t.conform r :=
  ⟨pruned.conform_conform distinct r, (refl s).conform_conform distinct r,
    (refl t).conform_conform (pruned.distinct distinct) r, t.shapes_conform r, t.reshapes_iff r⟩

def stop : RecordType := ⟨"stop", [⟨"street", .string, false⟩, ⟨"city", .string, true⟩]⟩

def tour : RecordType :=
  ⟨"tour", [⟨"id", .int64, false⟩, ⟨"days", .list (.list (.struct stop)), false⟩,
    ⟨"note", .string, true⟩]⟩

/-- Tours without their numbers and the streets of their stops. -/
def cities : Schema :=
  ⟨"tour", [⟨"days", .list (.list (.struct stop)), false,
      some ⟨"stop", [⟨"city", .string, true, none⟩]⟩⟩, ⟨"note", .string, true, none⟩]⟩

theorem tour_prunes : tour.schema.Prunes cities :=
  ⟨rfl, .delete (.nested (.delete (.flat .nil)) (.flat .nil))⟩

/-- The stops of a day are two lists deep, one has two cities, one none, and one is a number; the
tour has no note, and a field that is no column. -/
theorem tour_conform :
    let tour' : Record := ⟨[("guide", .text "Ann"), ("days", .list [
      .list [.record ⟨[("city", .text "Bath"), ("city", .text "Wells")]⟩, .int 3],
      .record ⟨[("street", .text "High")]⟩])]⟩
    let made : Record := ⟨[("days", .list [.list [.record ⟨[("city", .text "Bath")]⟩, .int 3],
      .record ⟨[("city", .null)]⟩]), ("note", .null)]⟩
    cities.conform (tour.schema.conform tour') = made ∧
      tour.schema.conform (tour.schema.conform tour') = tour.schema.conform tour' ∧
      cities.conform made = made ∧ cities.Shapes made ∧ cities.Reshapes tour' made := by
  intro tour' made
  obtain ⟨along, again, pruned, shapes, reshapes⟩ :=
    tour_prunes.conform_along (by decide) tour'
  exact ⟨along, again, pruned, shapes, (reshapes made).mpr rfl⟩

end RecordFlow
