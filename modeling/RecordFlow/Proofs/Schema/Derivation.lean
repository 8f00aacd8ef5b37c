import Mathlib.Data.List.Forall2
import RecordFlow.Proofs.Schema.Parts

/-! Which record types have a schema, and what it shows. Main statement: a schema is derived just if
at every depth fields have names, no two the same, and types that can be shown; it then mirrors the
record type at every depth, and else the first flaw is told, in the order of fields and depth
first. -/

namespace RecordFlow

/-- What a type comes down to below lists and sets. -/
def DataType.bottom : DataType → DataType
  | .list item => item.bottom
  | .set item => item.bottom
  | type => type

namespace RecordType

/-- The fields of a record have names, no two of them the same, and types other than null. -/
structure Sound (type : RecordType) : Prop where
  named : ∀ field ∈ type.fields, field.name ≠ ""
  distinct : type.fieldNames.Nodup
  typed : ∀ field ∈ type.fields, field.type.bottom ≠ .null

/-- What is wrong at a place of a record type. A place is the position of a field, what is looked at
there (the name by itself, the name among those before it, the type), and where the type reaches a
record a place in that. In depth-first order places are ordered as lists. -/
inductive FlawAt : RecordType → List Nat → Flaw → Prop
  | unnamed {type : RecordType} {i : Nat} {field : Field} (given : type.fields[i]? = some field)
      (empty : field.name = "") : FlawAt type [i, 0] (.unnamedField type.name)
  | repeated {type : RecordType} {i : Nat} {field : Field} (given : type.fields[i]? = some field)
      (before : field.name ∈ type.fieldNames.take i) :
      FlawAt type [i, 1] (.repeatedField type.name field.name)
  | untyped {type : RecordType} {i : Nat} {field : Field} (given : type.fields[i]? = some field)
      (null : field.type.bottom = .null) :
      FlawAt type [i, 2] (.untypedField type.name field.name)
  | inside {type inner : RecordType} {i : Nat} {field : Field} {place : List Nat} {flaw : Flaw}
      (given : type.fields[i]? = some field) (reached : field.type.record? = some inner)
      (deeper : FlawAt inner place flaw) : FlawAt type (i :: 2 :: place) flaw

/-- The flaw at the first of the places at which there is any. -/
def FirstOf (flaws : List Nat → Flaw → Prop) (flaw : Flaw) : Prop :=
  ∃ place, flaws place flaw ∧
    ∀ earlier other, List.Lex (· < ·) earlier place → ¬ flaws earlier other

/-- A check finds the first of some flaws, and accepts if there are none. -/
structure Finds (flaws : List Nat → Flaw → Prop) (result : Except Flaw Unit) : Prop where
  accepts : result = .ok () ↔ ∀ place flaw, ¬ flaws place flaw
  refuses : ∀ flaw, result = .error flaw ↔ FirstOf flaws flaw

variable {flaws later : List Nat → Flaw → Prop} {result next : Except Flaw Unit}

theorem Finds.congr (h : Finds flaws result)
    (same : ∀ place flaw, flaws place flaw ↔ later place flaw) : Finds later result := by
  have : flaws = later := funext fun place => funext fun flaw => propext (same place flaw)
  exact this ▸ h

theorem lex_irrefl (place : List Nat) : ¬ List.Lex (· < ·) place place := by
  induction place with
  | nil => exact nofun
  | cons i rest ih =>
    intro h
    cases h with
    | rel lt => exact Nat.lt_irrefl i lt
    | cons h => exact ih h

theorem Finds.nothing (none : ∀ place flaw, ¬ flaws place flaw) : Finds flaws (.ok ()) :=
  ⟨⟨fun _ => none, fun _ => rfl⟩,
    fun flaw => ⟨nofun, fun ⟨place, h, _⟩ => absurd h (none place flaw)⟩⟩

theorem Finds.one (place : List Nat) (flaw : Flaw) :
    Finds (fun p f => p = place ∧ f = flaw) (.error flaw) := by
  refine ⟨⟨nofun, fun none => absurd ⟨rfl, rfl⟩ (none place flaw)⟩, fun other => ⟨?_, ?_⟩⟩
  · rintro ⟨⟩
    exact ⟨place, ⟨rfl, rfl⟩, fun earlier _ lt same => lex_irrefl place (same.1 ▸ lt)⟩
  · rintro ⟨_, ⟨rfl, rfl⟩, -⟩
    rfl

theorem Finds.guard (c : Prop) [Decidable c] (place : List Nat) (flaw : Flaw) :
    Finds (fun p f => c ∧ p = place ∧ f = flaw) (if c then .error flaw else .ok ()) := by
  split
  · next h => exact (Finds.one place flaw).congr fun p f => (and_iff_right h).symm
  · next h => exact .nothing fun _ _ found => h found.1

/-- Of two checks one after the other, the second looking at later places, the first flaw of both is
found. -/
theorem Finds.bind (first : Finds flaws result) (second : Finds later next)
    (ordered : ∀ p f q g, flaws p f → later q g → List.Lex (· < ·) p q) :
    Finds (fun p f => flaws p f ∨ later p f) (result >>= fun _ => next) := by
  cases result with
  | error flaw =>
    obtain ⟨place, here, least⟩ := (first.refuses flaw).mp rfl
    refine ⟨⟨nofun, fun none => absurd (.inl here) (none place flaw)⟩, fun other => ⟨?_, ?_⟩⟩
    · rintro ⟨⟩
      refine ⟨place, .inl here, fun earlier g lt found => ?_⟩
      rcases found with found | found
      · exact least earlier g lt found
      · exact lex_irrefl _ (List.lex_trans Nat.lt_trans (ordered _ _ _ _ here found) lt)
    · rintro ⟨q, found | found, least'⟩
      · exact congrArg _ (Except.error.inj ((first.refuses other).mpr
          ⟨q, found, fun e g lt h => least' e g lt (.inl h)⟩))
      · exact absurd (.inl here) (least' place flaw (ordered _ _ _ _ here found))
  | ok =>
    have none := first.accepts.mp rfl
    exact second.congr fun p f => (or_iff_right (none p f)).symm

/-- The flaws found at places that go on from a place. -/
theorem Finds.below (h : Finds flaws result) (front : List Nat) :
    Finds (fun p f => ∃ q, p = front ++ q ∧ flaws q f) result := by
  have lex (p q : List Nat) :
      List.Lex (· < ·) (front ++ p) (front ++ q) ↔ List.Lex (· < ·) p q := by
    induction front with
    | nil => rfl
    | cons i front ih =>
      rw [← ih]
      refine ⟨fun h => ?_, .cons⟩
      cases h with
      | rel lt => exact absurd lt (Nat.lt_irrefl i)
      | cons h => exact h
  refine ⟨h.accepts.trans ⟨?_, ?_⟩, fun flaw => (h.refuses flaw).trans ⟨?_, ?_⟩⟩
  · rintro none _ flaw ⟨q, rfl, found⟩
    exact none q flaw found
  · exact fun none q flaw found => none _ flaw ⟨q, rfl, found⟩
  · rintro ⟨place, here, least⟩
    refine ⟨_, ⟨place, rfl, here⟩, ?_⟩
    rintro _ other lt ⟨q, rfl, found⟩
    exact least q other ((lex q place).mp lt) found
  · rintro ⟨_, ⟨place, rfl, here⟩, least⟩
    exact ⟨place, here, fun q other lt found =>
      least _ other ((lex q place).mpr lt) ⟨q, rfl, found⟩⟩

/-- What is wrong with the type of a field, at places within the type. -/
def TypeFlaw (record field : String) (type : DataType) (place : List Nat) (flaw : Flaw) : Prop :=
  (type.bottom = .null ∧ place = [] ∧ flaw = .untypedField record field) ∨
    ∃ inner, type.record? = some inner ∧ FlawAt inner place flaw

/-- A flaw at the place of a field is one of its name by itself, of its name among those before it,
or of its type. -/
theorem flawAt_field_iff {type : RecordType} {i : Nat} {field : Field}
    (given : type.fields[i]? = some field) (place : List Nat) (flaw : Flaw) :
    FlawAt type (i :: place) flaw ↔
      (field.name = "" ∧ place = [0] ∧ flaw = .unnamedField type.name) ∨
      (field.name ∈ type.fieldNames.take i ∧ place = [1] ∧
        flaw = .repeatedField type.name field.name) ∨
      ∃ inside, place = 2 :: inside ∧ TypeFlaw type.name field.name field.type inside flaw := by
  constructor
  · intro h
    cases h with
    | unnamed given' empty =>
      cases given.symm.trans given'
      exact .inl ⟨empty, rfl, rfl⟩
    | repeated given' before =>
      cases given.symm.trans given'
      exact .inr (.inl ⟨before, rfl, rfl⟩)
    | untyped given' null =>
      cases given.symm.trans given'
      exact .inr (.inr ⟨[], rfl, .inl ⟨null, rfl, rfl⟩⟩)
    | inside given' reached deeper =>
      cases given.symm.trans given'
      exact .inr (.inr ⟨_, rfl, .inr ⟨_, reached, deeper⟩⟩)
  · rintro (⟨empty, rfl, rfl⟩ | ⟨before, rfl, rfl⟩ |
      ⟨_, rfl, ⟨null, rfl, rfl⟩ | ⟨inner, reached, deeper⟩⟩)
    · exact .unnamed given empty
    · exact .repeated given before
    · exact .untyped given null
    · exact .inside given reached deeper

theorem FlawAt.exists_field {type : RecordType} {place : List Nat} {flaw : Flaw}
    (h : FlawAt type place flaw) :
    ∃ i inside field, place = i :: inside ∧ type.fields[i]? = some field := by
  cases h with
  | unnamed given => exact ⟨_, _, _, rfl, given⟩
  | repeated given => exact ⟨_, _, _, rfl, given⟩
  | untyped given => exact ⟨_, _, _, rfl, given⟩
  | inside given => exact ⟨_, _, _, rfl, given⟩

/-- The flaws of a record type at its fields from a position on. -/
def FlawFrom (type : RecordType) (start : Nat) (place : List Nat) (flaw : Flaw) : Prop :=
  ∃ i inside, start ≤ i ∧ place = i :: inside ∧ FlawAt type place flaw

theorem flawFrom_zero_iff (type : RecordType) (place : List Nat) (flaw : Flaw) :
    FlawFrom type 0 place flaw ↔ FlawAt type place flaw := by
  constructor
  · rintro ⟨_, _, -, -, h⟩
    exact h
  · intro h
    obtain ⟨i, inside, _, rfl, -⟩ := h.exists_field
    exact ⟨i, inside, i.zero_le, rfl, h⟩

theorem not_flawFrom_length (type : RecordType) (place : List Nat) (flaw : Flaw) :
    ¬ FlawFrom type type.fields.length place flaw := by
  rintro ⟨i, _, le, rfl, h⟩
  obtain ⟨_, _, field, he, given⟩ := h.exists_field
  cases he
  rw [List.getElem?_eq_none le] at given
  cases given

theorem FlawFrom.after {type : RecordType} {i : Nat} {place : List Nat} {flaw : Flaw}
    (h : FlawFrom type (i + 1) place flaw) (inside : List Nat) :
    List.Lex (· < ·) (i :: inside) place := by
  obtain ⟨k, _, le, rfl, -⟩ := h
  exact .rel le

/-- The flaws from a field on are those of the field and those from the next one on. -/
theorem flawFrom_iff {type : RecordType} {i : Nat} {field : Field}
    (given : type.fields[i]? = some field) (place : List Nat) (flaw : Flaw) :
    FlawFrom type i place flaw ↔
      (field.name = "" ∧ place = [i, 0] ∧ flaw = .unnamedField type.name) ∨
      (field.name ∈ type.fieldNames.take i ∧ place = [i, 1] ∧
        flaw = .repeatedField type.name field.name) ∨
      (∃ inside, place = [i, 2] ++ inside ∧
        TypeFlaw type.name field.name field.type inside flaw) ∨
      FlawFrom type (i + 1) place flaw := by
  have here (inside : List Nat) := flawAt_field_iff given inside flaw
  constructor
  · rintro ⟨k, inside, le, rfl, h⟩
    rcases Nat.eq_or_lt_of_le le with rfl | lt
    · rcases (here inside).mp h with ⟨empty, rfl, rfl⟩ | ⟨before, rfl, rfl⟩ | ⟨inside, rfl, found⟩
      · exact .inl ⟨empty, rfl, rfl⟩
      · exact .inr (.inl ⟨before, rfl, rfl⟩)
      · exact .inr (.inr (.inl ⟨inside, rfl, found⟩))
    · exact .inr (.inr (.inr ⟨k, inside, lt, rfl, h⟩))
  · rintro (⟨empty, rfl, rfl⟩ | ⟨before, rfl, rfl⟩ | ⟨inside, rfl, found⟩ | ⟨k, inside, le, h⟩)
    · exact ⟨i, _, i.le_refl, rfl, .unnamed given empty⟩
    · exact ⟨i, _, i.le_refl, rfl, .repeated given before⟩
    · exact ⟨i, _, i.le_refl, rfl, (here _).mpr (.inr (.inr ⟨_, rfl, found⟩))⟩
    · exact ⟨k, inside, Nat.le_of_succ_le le, h⟩

/-- A condition under which a check fails at once is a check of its own before the others. -/
theorem guard_bind (c : Prop) [Decidable c] (flaw : Flaw) (next : Except Flaw Unit) :
    (if c then .error flaw else next) =
      (if c then .error flaw else .ok ()) >>= fun _ => next := by
  split <;> rfl

/-- What is found at a field and then from the next one on is found from the field on. -/
theorem finds_from {type : RecordType} {i : Nat} {field : Field}
    (given : type.fields[i]? = some field) {seen : List String}
    (same : ∀ name, name ∈ seen ↔ name ∈ type.fieldNames.take i) {check next : Except Flaw Unit}
    (here : Finds (TypeFlaw type.name field.name field.type) check)
    (rest : Finds (FlawFrom type (i + 1)) next) :
    Finds (FlawFrom type i)
      (if field.name = "" then .error (.unnamedField type.name)
        else if field.name ∈ seen then .error (.repeatedField type.name field.name)
        else check >>= fun _ => next) := by
  -- Four checks one after the other, each at places that come after those of the ones before it.
  have unnamed := Finds.guard (field.name = "") [i, 0] (.unnamedField type.name)
  have repeated := Finds.guard (field.name ∈ seen) [i, 1] (.repeatedField type.name field.name)
  have typed := here.below [i, 2]
  have all := unnamed.bind (repeated.bind (typed.bind rest ?typed) ?repeated) ?unnamed
  case typed =>
    rintro _ f q g ⟨p, rfl, -⟩ found
    exact found.after _
  case repeated =>
    rintro _ f q g ⟨-, rfl, -⟩ (⟨q, rfl, -⟩ | found)
    · exact .cons (.rel (by decide))
    · exact found.after _
  case unnamed =>
    rintro _ f q g ⟨-, rfl, -⟩ (⟨-, rfl, -⟩ | ⟨q, rfl, -⟩ | found)
    · exact .cons (.rel (by decide))
    · exact .cons (.rel (by decide))
    · exact found.after _
  rw [guard_bind (field.name = ""), guard_bind (field.name ∈ seen)]
  refine all.congr fun place flaw => ?_
  rw [flawFrom_iff given, same]

end RecordType

open RecordType (Finds FlawAt FlawFrom TypeFlaw)

mutual

theorem DataType.check_finds (record field : String) : ∀ type : DataType,
    Finds (TypeFlaw record field type) (type.check record field)
  | .struct type => by
    refine (RecordType.check_finds type).congr fun place flaw => ⟨fun h => .inr ⟨type, rfl, h⟩, ?_⟩
    rintro (⟨null, -⟩ | ⟨_, reached, found⟩)
    · cases null
    · cases reached
      exact found
  | .list item => DataType.check_finds record field item
  | .set item => DataType.check_finds record field item
  | .null => (Finds.one [] (.untypedField record field)).congr fun place flaw =>
      ⟨fun h => .inl ⟨rfl, h⟩, by
        rintro (⟨-, h⟩ | ⟨_, reached, -⟩)
        · exact h
        · cases reached⟩
  | .boolean | .int32 | .int64 | .float32 | .float64 | .string | .binary =>
    .nothing fun place flaw => by
      rintro (⟨null, -⟩ | ⟨_, reached, -⟩)
      · cases null
      · cases reached

/-- The check of a record type tells the first flaw at any depth. -/
theorem RecordType.check_finds : ∀ type : RecordType, Finds (FlawAt type) type.check
  | ⟨name, fields⟩ =>
    (Field.checkAll_finds name fields [] [] (by simp)).congr (RecordType.flawFrom_zero_iff _)

/-- The fields before the rest have been looked at; their names are the ones seen. -/
theorem Field.checkAll_finds (record : String) : ∀ (rest before : List Field) (seen : List String),
    (∀ name, name ∈ seen ↔ name ∈ before.map (·.name)) →
      Finds (FlawFrom ⟨record, before ++ rest⟩ before.length) (Field.checkAll record seen rest)
  | [], before, seen, _ => by
    rw [List.append_nil]
    exact .nothing (RecordType.not_flawFrom_length ⟨record, before⟩)
  | ⟨name, type, nullable⟩ :: rest, before, seen, same => by
    have later := Field.checkAll_finds record rest (before ++ [⟨name, type, nullable⟩])
      (name :: seen) (by simp [same, or_comm])
    rw [List.append_assoc, List.length_append] at later
    have given : (before ++ ⟨name, type, nullable⟩ :: rest)[before.length]? =
        some ⟨name, type, nullable⟩ := by simp
    exact RecordType.finds_from given (by simpa [RecordType.fieldNames] using same)
      (DataType.check_finds record name type) later

end

/-! ### Every depth -/

theorem DataType.parts_eq (type : DataType) :
    type.parts = type.record?.elim [] RecordType.parts := by
  fun_induction DataType.record? type <;> simp_all [DataType.parts]

theorem DataType.record?_flat {type : DataType} (flat : type.isNested = false) :
    type.record? = none := by
  cases type <;> first | rfl | cases flat

/-- Induction over a record type and the records that its fields reach. -/
@[elab_as_elim]
theorem RecordType.induction {motive : RecordType → Prop}
    (step : ∀ type : RecordType, (∀ field ∈ type.fields, ∀ inner,
      field.type.record? = some inner → motive inner) → motive type) (type : RecordType) :
    motive type := by
  suffices reached : ∀ (t : DataType) inner, t.record? = some inner → motive inner from
    reached (.struct type) type rfl
  intro t
  induction t using DataType.induction with
  | flat t flat => simp [DataType.record?_flat flat]
  | list item ih => exact ih
  | set item ih => exact ih
  | struct name fields ih =>
    intro inner h
    cases h
    exact step ⟨name, fields⟩ ih

namespace RecordType

theorem mem_parts {type t : RecordType} : t ∈ type.parts ↔ t = type ∨
    ∃ field ∈ type.fields, ∃ inner, field.type.record? = some inner ∧ t ∈ inner.parts := by
  have nested (field : Field) : t ∈ field.type.parts ↔
      ∃ inner, field.type.record? = some inner ∧ t ∈ inner.parts := by
    rw [DataType.parts_eq]
    cases field.type.record? <;> simp
  cases type
  rw [parts, List.mem_cons, Field.mem_partsAll]
  simp only [nested]

/-- A record type without a flaw at a field of its own is sound. -/
theorem sound_of_flawless {type : RecordType} (none : ∀ place flaw, ¬ FlawAt type place flaw) :
    type.Sound where
  named field hfield empty := by
    obtain ⟨i, given⟩ := List.mem_iff_getElem?.mp hfield
    exact none _ _ (.unnamed given empty)
  distinct := by
    refine List.pairwise_iff_getElem.mpr fun i j hi hj lt same => ?_
    have bound : j < type.fields.length := by simpa [fieldNames] using hj
    have given := List.getElem?_eq_getElem bound
    refine none _ _ (.repeated given (List.mem_take_iff_getElem.mpr ⟨i, by omega, ?_⟩))
    simpa [fieldNames] using same
  typed field hfield null := by
    obtain ⟨i, given⟩ := List.mem_iff_getElem?.mp hfield
    exact none _ _ (.untyped given null)

/-- A part of a record type has a flaw just if the type has one. -/
theorem FlawAt.of_part {type inner : RecordType} {place : List Nat} {flaw : Flaw}
    (hinner : inner ∈ type.parts) (h : FlawAt inner place flaw) :
    ∃ whole, FlawAt type whole flaw := by
  induction type using RecordType.induction with
  | step type ih =>
    rcases mem_parts.mp hinner with rfl | ⟨field, hfield, middle, reached, hinner⟩
    · exact ⟨place, h⟩
    · obtain ⟨deeper, found⟩ := ih field hfield middle reached hinner
      obtain ⟨i, given⟩ := List.mem_iff_getElem?.mp hfield
      exact ⟨_, .inside given reached found⟩

theorem parts_trans {type middle inner : RecordType} (hmiddle : middle ∈ type.parts)
    (hinner : inner ∈ middle.parts) : inner ∈ type.parts := by
  induction type using RecordType.induction with
  | step type ih =>
    rcases mem_parts.mp hmiddle with rfl | ⟨field, hfield, next, reached, hmiddle⟩
    · exact hinner
    · have deeper := ih field hfield next reached hmiddle
      exact mem_parts.mpr (.inr ⟨field, hfield, next, reached, deeper⟩)

theorem Sound.repeated_free {type : RecordType} (h : type.Sound) {i : Nat} {field : Field}
    (given : type.fields[i]? = some field) : field.name ∉ type.fieldNames.take i := by
  intro before
  obtain ⟨j, hj, same⟩ := List.mem_take_iff_getElem.mp before
  have bound : i < type.fieldNames.length := by
    simpa [fieldNames] using (List.getElem?_eq_some_iff.mp given).1
  have := List.pairwise_iff_getElem.mp h.distinct j i (by omega) bound (by omega)
  exact this (same.trans (by simp [fieldNames, (List.getElem?_eq_some_iff.mp given).2]))

/-- A record type has no flaw just if every part of it is sound. -/
theorem flawless_iff {type : RecordType} :
    (∀ place flaw, ¬ FlawAt type place flaw) ↔ ∀ inner ∈ type.parts, inner.Sound := by
  constructor
  · intro none inner hinner
    refine sound_of_flawless fun place flaw found => ?_
    obtain ⟨whole, found⟩ := found.of_part hinner
    exact none whole flaw found
  · intro sound place flaw found
    induction found with
    | unnamed given empty =>
      exact (sound _ (mem_parts.mpr (.inl rfl))).named _ (List.mem_of_getElem? given) empty
    | repeated given before =>
      exact (sound _ (mem_parts.mpr (.inl rfl))).repeated_free given before
    | untyped given null =>
      exact (sound _ (mem_parts.mpr (.inl rfl))).typed _ (List.mem_of_getElem? given) null
    | inside given reached _ ih =>
      exact ih fun t ht => sound t
        (mem_parts.mpr (.inr ⟨_, List.mem_of_getElem? given, _, reached, ht⟩))

/-- In a checked record type no two fields of a record have the same name, at any depth. -/
theorem check_distinct (type : RecordType) (h : type.check = .ok ()) :
    ∀ s ∈ type.parts, s.fieldNames.Nodup :=
  fun s hs => (flawless_iff.mp (type.check_finds.accepts.mp h) s hs).distinct

end RecordType

/-! ### What a schema shows -/

/-- A column shows a field: its name, type and nullability, and the schema derived from the record
that the type reaches, if it reaches one. -/
structure Column.Mirrors (c : Column) (field : Field) : Prop where
  name : c.name = field.name
  type : c.type = field.type
  nullable : c.nullable = field.nullable
  nests : c.nested.isSome ↔ field.type.record?.isSome
  derived : ∀ nested inner, c.nested = some nested → field.type.record? = some inner →
    Schema.ofRecordType inner = .ok nested

/-- A schema shows a record type: its name and, in order, its fields. -/
structure Schema.Mirrors (s : Schema) (type : RecordType) : Prop where
  name : s.name = type.name
  columns : List.Forall₂ Column.Mirrors s.columns type.fields

namespace Schema

theorem ofRecordType_eq_ok_iff {type : RecordType} {s : Schema} :
    ofRecordType type = .ok s ↔ (∀ inner ∈ type.parts, inner.Sound) ∧ s = type.schema := by
  rw [← RecordType.flawless_iff, ← type.check_finds.accepts]
  unfold ofRecordType
  cases type.check <;> simp [bind, Except.bind, pure, Except.pure, eq_comm]

theorem ofRecordType_eq_error_iff {type : RecordType} {flaw : RecordType.Flaw} :
    ofRecordType type = .error flaw ↔ RecordType.FirstOf (FlawAt type) flaw := by
  rw [← type.check_finds.refuses]
  unfold ofRecordType
  cases type.check <;> simp [bind, Except.bind, pure, Except.pure]

/-- In the schema of a record type no two columns have the same name, at any depth. -/
theorem distinct_of_ofRecordType {type : RecordType} {s : Schema}
    (h : ofRecordType type = .ok s) : ∀ t ∈ s.parts, t.names.Nodup := by
  obtain ⟨sound, rfl⟩ := ofRecordType_eq_ok_iff.mp h
  intro t ht
  rw [RecordType.parts_schema] at ht
  obtain ⟨inner, hinner, rfl⟩ := List.mem_map.mp ht
  rw [RecordType.schema_names]
  exact (sound inner hinner).distinct

theorem schema_mirrors {type : RecordType} (sound : ∀ inner ∈ type.parts, inner.Sound) :
    type.schema.Mirrors type where
  name := type.schema_name
  columns := by
    have columns : type.schema.columns = type.fields.map fun field =>
        ⟨field.name, field.type, field.nullable, field.type.schema?⟩ := by
      cases type
      exact Field.columns_eq _
    rw [columns, List.forall₂_map_left_iff, List.forall₂_same]
    intro field hfield
    have shown := DataType.schema?_eq field.type
    refine ⟨rfl, rfl, rfl, by simp [shown], fun nested inner hnested reached => ?_⟩
    rw [shown, reached] at hnested
    obtain rfl := Option.some.inj hnested
    refine ofRecordType_eq_ok_iff.mpr ⟨fun part hpart => sound part ?_, rfl⟩
    exact RecordType.mem_parts.mpr (.inr ⟨field, hfield, inner, reached, hpart⟩)

/-- A schema is derived just if every part of the record type is sound; it then shows the record
type, at every depth what is derived from the part there. Else the first flaw is told. -/
theorem ofRecordType_mirrors (type : RecordType) :
    ((∃ s, ofRecordType type = .ok s) ↔ ∀ inner ∈ type.parts, inner.Sound) ∧
    (∀ flaw, ofRecordType type = .error flaw ↔ RecordType.FirstOf (FlawAt type) flaw) ∧
    ∀ s, ofRecordType type = .ok s →
      s.Mirrors type ∧ ∀ t ∈ s.parts, ∃ inner ∈ type.parts,
        ofRecordType inner = .ok t ∧ t.Mirrors inner := by
  refine ⟨⟨?_, fun sound => ⟨_, ofRecordType_eq_ok_iff.mpr ⟨sound, rfl⟩⟩⟩,
    fun flaw => ofRecordType_eq_error_iff, ?_⟩
  · rintro ⟨s, h⟩
    exact (ofRecordType_eq_ok_iff.mp h).1
  · intro s h
    obtain ⟨sound, rfl⟩ := ofRecordType_eq_ok_iff.mp h
    have within {inner : RecordType} (hinner : inner ∈ type.parts) :
        ∀ part ∈ inner.parts, part.Sound :=
      fun part hpart => sound part (RecordType.parts_trans hinner hpart)
    refine ⟨schema_mirrors sound, fun t ht => ?_⟩
    rw [RecordType.parts_schema] at ht
    obtain ⟨inner, hinner, rfl⟩ := List.mem_map.mp ht
    exact ⟨inner, hinner, ofRecordType_eq_ok_iff.mpr ⟨within hinner, rfl⟩,
      schema_mirrors (within hinner)⟩

-- What is nested in a field is looked at before the name of the next field.
example : ofRecordType ⟨"order", [⟨"lines", .list (.struct ⟨"line", [⟨"", .null, false⟩]⟩), false⟩,
    ⟨"lines", .int64, false⟩]⟩ = .error (.unnamedField "line") := rfl

end Schema

end RecordFlow
