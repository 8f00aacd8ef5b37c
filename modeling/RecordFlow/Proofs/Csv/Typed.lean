import RecordFlow.Csv.Cell
import RecordFlow.Proofs.Schema.Shaped
import RecordFlow.Proofs.Value.Typed

/-! The types of the values of cells. A scalar is of the type of its column. A list or a record is
JSON text: its outermost shape is that of the type and its records have the declared fields, but what
these hold is whatever the JSON says. Main statement: a cell is null, a scalar of its type, or made
from JSON, and then of its type just if the JSON is. -/

namespace RecordFlow.Csv

variable {text : String} {type : DataType} {c : Column} {v : Value}

/-! ### Scalars -/

theorem booleanValue_inhabits (h : booleanValue text = some v) : v.Inhabits .boolean := by
  unfold booleanValue at h
  simp only at h
  split at h
  · cases h
    trivial
  split at h
  · cases h
    trivial
  · cases h

theorem wholeValue_eq_some {low high : Int} (h : wholeValue low high text = some v) :
    ∃ n, (low ≤ n ∧ n ≤ high) ∧ v = .int (.ofInt n) := by
  unfold wholeValue at h
  split at h
  · next n _ =>
    split at h
    · next bounds =>
      cases h
      exact ⟨n, bounds, rfl⟩
    · cases h
  · cases h

/-- A text that is read as a scalar. -/
theorem eq_some_of_ok {e : ReadError} {found : Option Value}
    (h : (match found with
      | some v => Except.ok v
      | none => Except.error e) = .ok v) : found = some v := by
  cases found <;> cases h
  rfl

theorem parseValue_flat (flat : type.isNested = false) (h : parseValue text type = .ok v) :
    v.Inhabits type := by
  cases type with
  | null | string | binary =>
    cases h
    trivial
  | boolean => exact booleanValue_inhabits (eq_some_of_ok h)
  | int32 =>
    obtain ⟨n, bounds, rfl⟩ := wholeValue_eq_some (eq_some_of_ok h)
    rwa [Value.Inhabits, Whole.toInt_ofInt (Whole.within_of_int32 bounds)]
  | int64 =>
    obtain ⟨n, -, rfl⟩ := wholeValue_eq_some (eq_some_of_ok h)
    trivial
  | float32 | float64 =>
    obtain ⟨x, -, rfl⟩ := Option.map_eq_some_iff.mp (eq_some_of_ok h)
    trivial
  | list _ | set _ | struct _ => cases flat

/-! ### JSON texts -/

theorem exists_json_of_parseValue (nested : type.isNested = true)
    (h : parseValue text type = .ok v) :
    ∃ j, Json.parse text = some j ∧ v = j.toValue ∧ hasShape type v = true := by
  cases json : Json.parse text with
  | none => cases type <;> simp_all [parseValue, DataType.isNested]
  | some j =>
    have read : parseValue text type = if hasShape type j.toValue then .ok j.toValue
        else .error (.badCell text type) := by
      cases type <;> simp_all [parseValue, DataType.isNested]
    rw [read] at h
    split at h
    · next shaped =>
      cases h
      exact ⟨j, rfl, rfl, shaped⟩
    · cases h

theorem hasShape_conform (type : DataType) (c : Column) (v : Value) :
    hasShape type (c.conform v) = hasShape type v := by
  obtain ⟨name, _, nullable, nested⟩ := c
  cases nested with
  | none => rfl
  | some nested => cases type <;> cases v <;> rfl

/-- What the text of a cell stands for: nothing, a scalar of the type of the column, or JSON of its
outermost shape. JSON is shaped by the column, and as a value it is of the type just if it was. -/
inductive Denotes (text : String) (c : Column) : Value → Prop
  | empty : text = "" → Denotes text c .null
  | scalar {v : Value} : c.type.isNested = false → v.Inhabits c.type → Denotes text c v
  | json {j : Json} : c.type.isNested = true → Json.parse text = some j →
    hasShape c.type (c.conform j.toValue) = true → c.Shapes (c.conform j.toValue) →
    ((c.conform j.toValue).Inhabits c.type ↔ j.Inhabits c.type) →
    Denotes text c (c.conform j.toValue)

/-- Whatever is read from a cell of a derived column is null, or a scalar of the declared type, or
JSON that has its outermost shape and is of the declared type at every depth just if it is written
so. -/
theorem parseCell_denotes {record : RecordType} {s : Schema}
    (derived : Schema.ofRecordType record = .ok s) (hc : c ∈ s.columns)
    (h : parseCell text c = .ok v) : Denotes text c v := by
  obtain ⟨shapes, distinct⟩ := Schema.column_of_ofRecordType derived hc
  unfold parseCell at h
  split at h
  · next empty =>
    cases h
    exact .empty empty.1
  obtain ⟨whole, parsed, h⟩ := exists_of_bind_ok h
  cases h
  cases kind : c.type.isNested with
  | false =>
    rw [shapes, DataType.shape_flat kind]
    exact .scalar kind (parseValue_flat kind parsed)
  | true =>
    obtain ⟨j, json, rfl, outermost⟩ := exists_json_of_parseValue kind parsed
    refine .json kind json (by rwa [hasShape_conform]) (c.shapes_conform _) ?_
    rw [shapes]
    exact Json.inhabits_shape distinct j

def probe : RecordType := ⟨"probe", [⟨"level", .int32, false⟩, ⟨"unit", .string, true⟩]⟩

def survey : RecordType :=
  ⟨"survey", [⟨"count", .int32, false⟩, ⟨"prices", .list .float64, true⟩,
    ⟨"probes", .set (.struct probe), true⟩]⟩

def probes : Column := ⟨"probes", .set (.struct probe), true, some probe.schema⟩

def farProbe : String := "[\x7b\"level\": 3000000000, \"depth\": []\x7d]"

def farLevel : Value := .list [.record ⟨[("level", .int 3000000000), ("unit", .null)]⟩]

/-- The probe has a level beyond 32 bits, no unit, and a member that is not declared. -/
theorem farProbe_denotes :
    parseCell farProbe probes = .ok farLevel ∧ Denotes farProbe probes farLevel ∧
      ¬ farLevel.Inhabits probes.type := by
  have derived : Schema.ofRecordType survey = .ok survey.schema := rfl
  have declared : probes ∈ survey.schema.columns := .tail _ (.tail _ (.head _))
  have read : parseCell farProbe probes = .ok farLevel := by decide +kernel
  refine ⟨read, parseCell_denotes derived declared read, ?_⟩
  intro typed
  have level := (typed _ (.head _)).2.1 _ (.head _)
  exact absurd level.2 (by decide)

/-- A whole number among the prices becomes an integer. -/
theorem whole_price_inhabits_not :
    let prices : Column := ⟨"prices", .list .float64, true, none⟩
    Schema.ofRecordType survey = .ok survey.schema ∧ prices ∈ survey.schema.columns ∧
      parseCell "[1]" prices = .ok (.list [.int 1]) ∧
      ¬ (Value.list [.int 1]).Inhabits prices.type := by
  refine ⟨rfl, .tail _ (.head _), ?_, ?_⟩
  · decide +kernel
  · simp [Value.Inhabits]

end RecordFlow.Csv
