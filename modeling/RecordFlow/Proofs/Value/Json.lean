import RecordFlow.Proofs.Json
import RecordFlow.Proofs.Whole
import RecordFlow.Value.Json

/-! Values through JSON and back. Numbers, texts and lists come back as they were; what JSON cannot
carry is normalized first. Main statement: a value comes back normalized, normalizing is lossless in
JSON, and JSON without whole numbers beyond the signed range comes back from values unchanged. -/

namespace RecordFlow

/-! ### Normal values -/

mutual

/-- What JSON carries of a value: no number for a float that is not finite, numbers for bytes, and the
last fields of their names in order of the names. -/
def Value.normalize : Value → Value
  | .float x => if x.isFinite then .float x else .null
  | .bytes b => .list (b.map fun byte => .int (.ofInt byte.toNat))
  | .list items => .list (Value.normalizeAll items)
  | .record ⟨fields⟩ => .record ⟨sortByName (Record.normalizeFields fields)⟩
  | v => v

def Value.normalizeAll : List Value → List Value
  | [] => []
  | v :: vs => v.normalize :: Value.normalizeAll vs

def Record.normalizeFields : List (String × Value) → List (String × Value)
  | [] => []
  | (name, v) :: fields => (name, v.normalize) :: Record.normalizeFields fields

end

mutual

/-- JSON as it is held: whole numbers from the least signed one up to a greatest, floats that are
finite, and the members of objects in increasing order of their keys. -/
def Json.WellFormed (greatest : Int) : Json → Prop
  | .int n => Int64.minValue.toInt ≤ n ∧ n ≤ greatest
  | .float x => x.isFinite = true
  | .list items => Json.WellFormedAll greatest items
  | .object members => Increasing members ∧ Json.WellFormedMembers greatest members
  | _ => True

def Json.WellFormedAll (greatest : Int) : List Json → Prop
  | [] => True
  | item :: rest => item.WellFormed greatest ∧ Json.WellFormedAll greatest rest

def Json.WellFormedMembers (greatest : Int) : List (String × Json) → Prop
  | [] => True
  | (_, item) :: rest => item.WellFormed greatest ∧ Json.WellFormedMembers greatest rest

end

theorem Json.wellFormedMembers_iff {greatest : Int} {members : List (String × Json)} :
    WellFormedMembers greatest members ↔ ∀ member ∈ members, member.2.WellFormed greatest := by
  induction members with
  | nil => simp [WellFormedMembers]
  | cons member rest ih => simp [WellFormedMembers, ih]

theorem Json.toValues_eq (items : List Json) : toValues items = items.map toValue := by
  induction items with
  | nil => rfl
  | cons item rest ih => rw [toValues, ih, List.map_cons]

theorem Json.toFields_eq (members : List (String × Json)) :
    toFields members = members.map fun member => (member.1, member.2.toValue) := by
  induction members with
  | nil => rfl
  | cons member rest ih => simp [toFields, ih]

/-! ### To JSON and back -/

theorem Json.toValue_int (n : Int64) : (Json.int n.toInt).toValue = .int n := by
  rw [toValue, Whole.ofInt?_eq_some_iff.mpr rfl]

theorem Json.toValue_byte (byte : UInt8) :
    (Json.int byte.toNat).toValue = .int (.ofInt byte.toNat) := by
  have small := byte.toNat_lt
  have whole : (Int64.ofInt byte.toNat).toInt = byte.toNat :=
    Int64.toInt_ofInt_of_le (by omega) (by omega)
  rw [← toValue_int, whole]

theorem Json.toValues_bytes (b : List UInt8) :
    Json.toValues (b.map fun byte => .int byte.toNat) =
      b.map fun byte => .int (.ofInt byte.toNat) := by
  induction b with
  | nil => rfl
  | cons byte rest ih => simp [toValues, toValue_byte, ih]

mutual

/-- A value comes back from JSON normalized. -/
theorem Value.toValue_toJson : ∀ v : Value, v.toJson.toValue = v.normalize
  | .null | .bool _ | .text _ => rfl
  | .int n => Json.toValue_int n
  | .float x => by
    rw [Value.toJson, Value.normalize]
    split <;> rfl
  | .bytes b => congrArg Value.list (Json.toValues_bytes b)
  | .list items => congrArg Value.list (Value.toValues_toJsonAll items)
  | .record ⟨fields⟩ => by
    rw [Value.toJson, Value.normalize, Json.ofMembers, Json.toValue, Json.sortMembers_eq,
      Json.toFields_eq, ← sortByName_map, ← Json.toFields_eq, Record.toFields_toJsonFields fields]

theorem Value.toValues_toJsonAll : ∀ vs : List Value,
    Json.toValues (Value.toJsonAll vs) = Value.normalizeAll vs
  | [] => rfl
  | v :: vs => congrArg₂ List.cons (Value.toValue_toJson v) (Value.toValues_toJsonAll vs)

theorem Record.toFields_toJsonFields : ∀ fields : List (String × Value),
    Json.toFields (Record.toJsonFields fields) = Record.normalizeFields fields
  | [] => rfl
  | (name, v) :: fields =>
    congrArg₂ List.cons (congrArg (name, ·) (Value.toValue_toJson v))
      (Record.toFields_toJsonFields fields)

end

/-! ### From JSON and back -/

mutual

/-- JSON that fits in the signed range is what its value becomes. -/
theorem Json.toJson_toValue : ∀ j : Json, j.WellFormed Int64.maxValue.toInt → j.toValue.toJson = j
  | .null, _ | .bool _, _ | .text _, _ => rfl
  | .int n, h => by
    obtain ⟨k, whole, same⟩ := Whole.exists_of_within h
    rw [Json.toValue, whole]
    exact congrArg Json.int same
  | .float x, h => if_pos h
  | .list items, h => congrArg Json.list (Json.toJsonAll_toValues items h)
  | .object members, h => by
    rw [Json.toValue, Value.toJson, Json.toJsonFields_toFields members h.2, Json.ofMembers,
      Json.sortMembers_eq, h.1.sortByName_eq]

theorem Json.toJsonAll_toValues : ∀ items : List Json,
    Json.WellFormedAll Int64.maxValue.toInt items → Value.toJsonAll (Json.toValues items) = items
  | [], _ => rfl
  | item :: rest, h =>
    congrArg₂ List.cons (Json.toJson_toValue item h.1) (Json.toJsonAll_toValues rest h.2)

theorem Json.toJsonFields_toFields : ∀ members : List (String × Json),
    Json.WellFormedMembers Int64.maxValue.toInt members →
      Record.toJsonFields (Json.toFields members) = members
  | [], _ => rfl
  | (key, item) :: rest, h =>
    congrArg₂ List.cons (congrArg (key, ·) (Json.toJson_toValue item h.1))
      (Json.toJsonFields_toFields rest h.2)

end

theorem Json.wellFormedAll_bytes (b : List UInt8) :
    WellFormedAll Int64.maxValue.toInt (b.map fun byte => .int byte.toNat) := by
  induction b with
  | nil => trivial
  | cons byte rest ih =>
    have small := byte.toNat_lt
    have low := Int64.toInt_minValue
    have high := Int64.toInt_maxValue
    exact ⟨⟨by omega, by omega⟩, ih⟩

mutual

/-- The JSON of a value fits in the signed range. -/
theorem Value.wellFormed_toJson : ∀ v : Value, v.toJson.WellFormed Int64.maxValue.toInt
  | .null | .bool _ | .text _ => trivial
  | .int n => Whole.within_toInt n
  | .float x => by
    rw [Value.toJson]
    split
    · next finite => exact finite
    · trivial
  | .bytes b => Json.wellFormedAll_bytes b
  | .list items => Value.wellFormed_toJsonAll items
  | .record ⟨fields⟩ => by
    rw [Value.toJson, Json.ofMembers, Json.sortMembers_eq]
    have all := Json.wellFormedMembers_iff.mp (Record.wellFormed_toJsonFields fields)
    exact ⟨sortByName_increasing _,
      Json.wellFormedMembers_iff.mpr fun member h => all member (mem_of_mem_sortByName h)⟩

theorem Value.wellFormed_toJsonAll : ∀ vs : List Value,
    Json.WellFormedAll Int64.maxValue.toInt (Value.toJsonAll vs)
  | [] => trivial
  | v :: vs => ⟨Value.wellFormed_toJson v, Value.wellFormed_toJsonAll vs⟩

theorem Record.wellFormed_toJsonFields : ∀ fields : List (String × Value),
    Json.WellFormedMembers Int64.maxValue.toInt (Record.toJsonFields fields)
  | [] => trivial
  | (_, v) :: fields => ⟨Value.wellFormed_toJson v, Record.wellFormed_toJsonFields fields⟩

end

/-- Normalizing is lossless in JSON. -/
theorem Value.toJson_normalize (v : Value) : v.normalize.toJson = v.toJson := by
  rw [← v.toValue_toJson]
  exact Json.toJson_toValue v.toJson v.wellFormed_toJson

theorem Value.normalize_normalize (v : Value) : v.normalize.normalize = v.normalize := by
  rw [← v.normalize.toValue_toJson, v.toJson_normalize, v.toValue_toJson]

/-- A value comes back from JSON normalized, so unchanged just if it is normal; to normalize it again
changes nothing, and its JSON is that of the normal value. JSON comes back from values unchanged as
long as its whole numbers are in the signed range. -/
theorem json_round_trips :
    (∀ v : Value, v.toJson.toValue = v.normalize ∧ v.normalize.normalize = v.normalize ∧
      v.normalize.toJson = v.toJson ∧ (v.toJson.toValue = v ↔ v.normalize = v)) ∧
    ∀ j : Json, j.WellFormed Int64.maxValue.toInt → j.toValue.toJson = j := by
  refine ⟨fun v => ⟨v.toValue_toJson, v.normalize_normalize, v.toJson_normalize, ?_⟩,
    Json.toJson_toValue⟩
  rw [v.toValue_toJson]

/-- A reading that has two values of one name, bytes, an infinity and a negative zero. -/
def reading : Value :=
  .record ⟨[("level", .int 1), ("raw", .bytes [0, 255]), ("peak", .float (.infinity false)),
    ("level", .list [.float ⟨0x8000000000000000⟩, .float ⟨0x3ff0000000000000⟩, .int (-1)])]⟩

def readingJson : Json :=
  .object [("level", .list [.float ⟨0x8000000000000000⟩, .float ⟨0x3ff0000000000000⟩, .int (-1)]),
    ("peak", .null), ("raw", .list [.int 0, .int 255])]

theorem reading_round_trips :
    reading.toJson = readingJson ∧ reading.toJson.toValue = reading.normalize ∧
      reading.normalize = .record ⟨[
        ("level", .list [.float ⟨0x8000000000000000⟩, .float ⟨0x3ff0000000000000⟩, .int (-1)]),
        ("peak", .null), ("raw", .list [.int 0, .int 255])]⟩ ∧
      readingJson.WellFormed Int64.maxValue.toInt ∧ readingJson.toValue.toJson = readingJson := by
  have json : reading.toJson = readingJson := rfl
  have wellFormed : readingJson.WellFormed Int64.maxValue.toInt := json ▸ reading.wellFormed_toJson
  obtain ⟨back, -, -, -⟩ := json_round_trips.1 reading
  exact ⟨json, back, back.symm.trans (json ▸ rfl), wellFormed,
    json_round_trips.2 readingJson wellFormed⟩

end RecordFlow
