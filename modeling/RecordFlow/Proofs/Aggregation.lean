import Mathlib.Data.List.Forall2
import RecordFlow.Aggregation

/-! What fits a layout, and what has one. Main statements: the check of an aggregation accepts just the
kinds of the layout, one after the other, and names the first that differs; an aggregation is decoded
just if each field of the result has one entry that may stand there, and not all are keys, and else
refused for the first entry out of place or, if there is none, for what is missing. -/

namespace RecordFlow.Aggregation

/-- The entry names the field, or none at all. -/
def Entry.StandsAt (entry : Entry) (name : String) : Prop :=
  entry.field = "" ∨ entry.field = unnamed ∨ entry.field = name

instance (entry : Entry) (name : String) : Decidable (entry.StandsAt name) :=
  inferInstanceAs (Decidable (_ ∨ _))

/-- Each field has one entry, which names it or nothing, and the entries compute more than keys. -/
structure Covers (a : Aggregation) (type : RecordType) : Prop where
  one_each : a.entries.length = type.fieldNames.length
  filled : 0 < a.entries.length
  stands : ∀ (i : Nat) (entry : Entry) (name : String), a.entries[i]? = some entry →
    type.fieldNames[i]? = some name → entry.StandsAt name
  computes : ∃ entry ∈ a.entries, entry.kind ≠ .groupBy

namespace Layout

variable {layout : Layout} {a : Aggregation}

/-- An aggregation with as many entries as the layout, each of the kind at its position. -/
def Fits (layout : Layout) (a : Aggregation) : Prop :=
  a.entries.map (·.kind) = layout.entries.map (·.1)

instance (layout : Layout) (a : Aggregation) : Decidable (layout.Fits a) :=
  inferInstanceAs (Decidable (_ = _))

/-- Where the kinds of entries first differ from those expected. -/
inductive Differs (entries : List Entry) (expected : List (AggregationKind × String)) : Flaw → Prop
  | intro (before : List Entry) (entry : Entry) (after : List Entry)
      (front : List (AggregationKind × String)) (kind : AggregationKind) (name : String)
      (back : List (AggregationKind × String))
      (given : entries = before ++ entry :: after)
      (declared : expected = front ++ (kind, name) :: back)
      (same : before.map (·.kind) = front.map (·.1)) (other : entry.kind ≠ kind) :
      Differs entries expected (.kindDiffers name entry.kind kind)

/-- What is wrong with an aggregation that does not fit: its length, else the first kind that
differs. -/
inductive Misfit (layout : Layout) (a : Aggregation) : Flaw → Prop
  | length (ne : a.entries.length ≠ layout.entries.length) :
      Misfit layout a (.lengthDiffers a.entries.length layout.entries.length)
  | kind {flaw : Flaw} (eq : a.entries.length = layout.entries.length)
      (differs : Differs a.entries layout.entries flaw) : Misfit layout a flaw

theorem Fits.length_eq (h : layout.Fits a) : a.entries.length = layout.entries.length := by
  simpa using congrArg List.length h

theorem checkKinds_eq_ok_iff {entries : List Entry} {expected : List (AggregationKind × String)}
    (length : entries.length = expected.length) :
    checkKinds entries expected = .ok () ↔ entries.map (·.kind) = expected.map (·.1) := by
  induction entries generalizing expected with
  | nil =>
    cases List.length_eq_zero_iff.mp length.symm
    simp [checkKinds]
  | cons entry rest ih =>
    rcases expected with _ | ⟨⟨kind, name⟩, expected⟩
    · cases length
    · rw [checkKinds, List.map_cons, List.map_cons, List.cons.injEq]
      split
      · next same => simp [same, ih (Nat.succ.inj length)]
      · next other => simp [other]

theorem Differs.cons {entries : List Entry} {expected : List (AggregationKind × String)}
    {flaw : Flaw} (h : Differs entries expected flaw) {entry : Entry} {kind : AggregationKind}
    (same : entry.kind = kind) (name : String) :
    Differs (entry :: entries) ((kind, name) :: expected) flaw := by
  obtain ⟨before, _, _, front, _, _, _, given, declared, equal, other⟩ := h
  exact .intro (entry :: before) _ _ ((kind, name) :: front) _ _ _ (congrArg _ given)
    (congrArg _ declared) (by rw [List.map_cons, List.map_cons, same, equal]) other

theorem checkKinds_eq_error_iff {entries : List Entry}
    {expected : List (AggregationKind × String)} {flaw : Flaw} :
    checkKinds entries expected = .error flaw ↔ Differs entries expected flaw := by
  constructor
  · intro h
    fun_induction checkKinds entries expected with
    | case1 entry rest name expected ih => exact (ih h).cons rfl name
    | case2 entry rest kind name expected other =>
      cases h
      exact .intro [] entry rest [] kind name expected rfl rfl rfl other
    | case3 => cases h
  · rintro ⟨before, entry, after, front, kind, name, back, rfl, rfl, same, other⟩
    induction before generalizing front with
    | nil =>
      cases List.map_eq_nil_iff.mp same.symm
      exact if_neg other
    | cons e before ih =>
      rcases front with _ | ⟨⟨k, n⟩, front⟩
      · cases same
      · obtain ⟨first, rest⟩ := List.cons.inj same
        rw [List.cons_append, List.cons_append, checkKinds, if_pos first]
        exact ih front rest

/-- The check accepts what fits. -/
theorem check_eq_ok_iff : layout.check a = .ok () ↔ layout.Fits a := by
  unfold check
  split
  · next length => exact checkKinds_eq_ok_iff length
  · next ne => simpa using fun fits => ne (Fits.length_eq fits)

/-- The check says what is wrong. -/
theorem check_eq_error_iff {flaw : Flaw} : layout.check a = .error flaw ↔ Misfit layout a flaw := by
  unfold check
  split
  · next length =>
    rw [checkKinds_eq_error_iff]
    refine ⟨.kind length, fun h => ?_⟩
    cases h with
    | length ne => exact absurd length ne
    | kind _ differs => exact differs
  · next ne =>
    constructor
    · intro h
      cases h
      exact .length ne
    · intro h
      cases h with
      | length => rfl
      | kind eq => exact absurd eq ne

/-! ### Decoding -/

/-- Entries are paired as long as each may stand at the field of its position. -/
theorem pair_eq_ok_iff {declared names : List String} {index : Nat} {entries : List Entry}
    {paired : List (AggregationKind × String)} :
    pair declared index names entries = .ok paired ↔
      List.Forall₂ Entry.StandsAt entries (names.take entries.length) ∧
        paired = (entries.map (·.kind)).zip names := by
  induction entries generalizing index names paired with
  | nil => simp [pair, eq_comm]
  | cons entry rest ih =>
    cases names with
    | nil => simp [pair]
    | cons name names =>
      rw [pair, List.length_cons, List.take_succ_cons, List.forall₂_cons, List.map_cons,
        List.zip_cons_cons]
      split
      · next stands =>
        constructor
        · intro h
          cases run : pair declared (index + 1) names rest with
          | error flaw =>
            rw [run] at h
            cases h
          | ok tail =>
            rw [run] at h
            cases h
            obtain ⟨standing, same⟩ := ih.mp run
            exact ⟨⟨stands, standing⟩, congrArg _ same⟩
        · rintro ⟨⟨-, standing⟩, rfl⟩
          rw [ih.mpr ⟨standing, rfl⟩]
          rfl
      · next misnamed => simp [Entry.StandsAt, misnamed]

/-- What becomes of entries once each is paired with a field. -/
theorem decode_eq {type : RecordType} (filled : a.entries ≠ []) : decode type a =
    (pair type.fieldNames 0 type.fieldNames a.entries >>= fun entries =>
      if entries.length < type.fieldNames.length then
        .error (.tooFewFields entries.length type.name type.fieldNames)
      else if entries.all (·.1 == .groupBy) then .error .onlyKeys
      else .ok ⟨entries⟩) := by
  have some : a.entries.isEmpty = false := by simpa using filled
  unfold decode
  simp only [some, Bool.false_eq_true, if_false]
  cases pair type.fieldNames 0 type.fieldNames a.entries with
  | error flaw => rfl
  | ok entries =>
    simp only [bind, Except.bind, pure, Except.pure, throw, throwThe, MonadExceptOf.throw]

theorem all_keys_iff {entries : List Entry} {names : List String}
    (length : entries.length = names.length) :
    ((entries.map (·.kind)).zip names).all (·.1 == .groupBy) = true ↔
      ∀ entry ∈ entries, entry.kind = .groupBy := by
  have kinds : ((entries.map (·.kind)).zip names).map (·.1) = entries.map (·.kind) :=
    List.map_fst_zip (by simp [length])
  have paired : ((entries.map (·.kind)).zip names).all (·.1 == .groupBy) =
      (((entries.map (·.kind)).zip names).map (·.1)).all (· == .groupBy) := by
    rw [List.all_map]
    rfl
  rw [paired, kinds]
  simp

/-- Entries that are paired are decoded if no field is left and they compute more than keys. -/
theorem decode_eq_ok_iff_of_pair {type : RecordType} {entries : List (AggregationKind × String)}
    (filled : a.entries ≠ [])
    (run : pair type.fieldNames 0 type.fieldNames a.entries = .ok entries) :
    decode type a = .ok layout ↔ type.fieldNames.length ≤ entries.length ∧
      ¬ entries.all (·.1 == .groupBy) = true ∧ layout.entries = entries := by
  rw [decode_eq filled, run]
  simp only [bind, Except.bind]
  split
  · next short => simp [Nat.not_le.mpr short]
  split
  · next keys => simp [keys]
  · next covered computes =>
    cases layout
    simp only [Except.ok.injEq, mk.injEq, Nat.not_lt.mp covered, computes]
    simp [eq_comm]

/-- An aggregation is decoded just if it has one entry for each field in declared order and computes
more than keys. -/
theorem decode_eq_ok_iff {type : RecordType} : decode type a = .ok layout ↔
    a.entries ≠ [] ∧ List.Forall₂ Entry.StandsAt a.entries type.fieldNames ∧
      (∃ entry ∈ a.entries, entry.kind ≠ .groupBy) ∧
      layout.entries = (a.entries.map (·.kind)).zip type.fieldNames := by
  by_cases filled : a.entries = []
  · simp [decode, filled, throw, throwThe, MonadExceptOf.throw, bind, Except.bind]
  constructor
  · intro h
    cases run : pair type.fieldNames 0 type.fieldNames a.entries with
    | error flaw =>
      rw [decode_eq filled, run] at h
      cases h
    | ok entries =>
      obtain ⟨covered, computes, same⟩ := (decode_eq_ok_iff_of_pair filled run).mp h
      obtain ⟨standing, rfl⟩ := pair_eq_ok_iff.mp run
      have short := standing.length_eq
      simp only [List.length_zip, List.length_map, List.length_take] at covered short
      have length : a.entries.length = type.fieldNames.length := by omega
      rw [all_keys_iff length] at computes
      rw [length, List.take_length] at standing
      exact ⟨filled, standing, by simpa using computes, same⟩
  · rintro ⟨-, standing, ⟨entry, mem, computes⟩, same⟩
    have length := standing.length_eq
    have run : pair type.fieldNames 0 type.fieldNames a.entries =
        .ok ((a.entries.map (·.kind)).zip type.fieldNames) :=
      pair_eq_ok_iff.mpr ⟨by rwa [length, List.take_length], rfl⟩
    have notKeys := (all_keys_iff length).not.mpr fun keys => computes (keys entry mem)
    exact (decode_eq_ok_iff_of_pair filled run).mpr ⟨by simp [length], notKeys, same⟩

/-- An aggregation of the kinds of a decoded layout is decoded to it just if its entries may stand
where they do. -/
theorem decode_eq_ok_iff_fits {type : RecordType} {b : Aggregation}
    (decoded : decode type a = .ok layout) :
    decode type b = .ok layout ↔
      layout.Fits b ∧ List.Forall₂ Entry.StandsAt b.entries type.fieldNames := by
  obtain ⟨filled, standing, ⟨entry, mem, computes⟩, same⟩ := decode_eq_ok_iff.mp decoded
  have kinds : layout.entries.map (·.1) = a.entries.map (·.kind) := by
    rw [same, List.map_fst_zip (by simp [standing.length_eq])]
  rw [decode_eq_ok_iff, Fits, kinds]
  constructor
  · rintro ⟨-, standing', -, same'⟩
    refine ⟨?_, standing'⟩
    rw [← kinds, same', List.map_fst_zip (by simp [standing'.length_eq])]
  · rintro ⟨fits, standing'⟩
    have mem' : entry.kind ∈ b.entries.map (·.kind) := fits ▸ List.mem_map_of_mem mem
    obtain ⟨entry', hentry', kind⟩ := List.mem_map.mp mem'
    refine ⟨List.ne_nil_of_mem hentry', standing', ⟨entry', hentry', kind ▸ computes⟩, ?_⟩
    rw [same, fits]

/-! ### What is refused -/

/-- What is wrong with the entry at a position: no field is left for it, or it names another field
than the one there. -/
inductive Misplaced (declared : List String) (entries : List Entry) (i : Nat) : Flaw → Prop
  | surplus (entry : Entry) (given : entries[i]? = some entry) (beyond : declared.length ≤ i) :
      Misplaced declared entries i (.tooManyFields i entry.field declared)
  | misnamed (entry : Entry) (name : String) (given : entries[i]? = some entry)
      (expected : declared[i]? = some name) (other : ¬ entry.StandsAt name) :
      Misplaced declared entries i (.outOfOrder i name entry.field)

/-- What is wrong with the first entry that is misplaced. -/
def FirstMisplaced (declared : List String) (entries : List Entry) (flaw : Flaw) : Prop :=
  ∃ i, Misplaced declared entries i flaw ∧ ∀ j < i, ∀ other, ¬ Misplaced declared entries j other

/-- Why an aggregation has no layout. Of several reasons the one that comes first here counts. -/
inductive Refused (type : RecordType) (a : Aggregation) : Flaw → Prop
  | noFields (empty : a.entries.length = 0) : Refused type a (.noFields type.name)
  | misplaced {flaw : Flaw} (first : FirstMisplaced type.fieldNames a.entries flaw) :
      Refused type a flaw
  | tooFewFields (filled : 0 < a.entries.length)
      (placed : ∀ i flaw, ¬ Misplaced type.fieldNames a.entries i flaw)
      (few : a.entries.length < type.fieldNames.length) :
      Refused type a (.tooFewFields a.entries.length type.name type.fieldNames)
  | onlyKeys (filled : 0 < a.entries.length)
      (placed : ∀ i flaw, ¬ Misplaced type.fieldNames a.entries i flaw)
      (covered : type.fieldNames.length ≤ a.entries.length)
      (keys : ∀ entry ∈ a.entries, entry.kind = .groupBy) : Refused type a .onlyKeys

theorem Misplaced.unique {declared : List String} {entries : List Entry} {i : Nat} {f g : Flaw}
    (hf : Misplaced declared entries i f) (hg : Misplaced declared entries i g) : f = g := by
  cases hf with
  | surplus entry given beyond =>
    cases hg with
    | surplus entry' given' => rw [Option.some.inj (given.symm.trans given')]
    | misnamed _ _ _ expected => simp [List.getElem?_eq_none beyond] at expected
  | misnamed entry name given expected =>
    cases hg with
    | surplus _ _ beyond => simp [List.getElem?_eq_none beyond] at expected
    | misnamed entry' name' given' expected' =>
      rw [Option.some.inj (given.symm.trans given'), Option.some.inj (expected.symm.trans expected')]

theorem Misplaced.lt_length {declared : List String} {entries : List Entry} {i : Nat} {flaw : Flaw}
    (h : Misplaced declared entries i flaw) : i < entries.length := by
  cases h with
  | surplus _ given => exact (List.getElem?_eq_some_iff.mp given).1
  | misnamed _ _ given => exact (List.getElem?_eq_some_iff.mp given).1

/-- The first misplaced entry is the one at a position if none before it is. -/
theorem Misplaced.first_iff {declared : List String} {entries : List Entry} {i : Nat} {flaw : Flaw}
    (here : Misplaced declared entries i flaw)
    (before : ∀ j < i, ∀ other, ¬ Misplaced declared entries j other) {other : Flaw} :
    FirstMisplaced declared entries other ↔ flaw = other := by
  constructor
  · rintro ⟨j, there, first⟩
    rcases Nat.lt_trichotomy j i with lt | rfl | gt
    · exact absurd there (before j lt other)
    · exact here.unique there
    · exact absurd here (first i gt flaw)
  · rintro rfl
    exact ⟨i, here, before⟩

theorem getElem?_of_drop {α : Type} {l rest : List α} {x : α} {i : Nat} (h : l.drop i = x :: rest) :
    l[i]? = some x ∧ l.drop (i + 1) = rest := by
  rw [← List.head?_drop, ← List.tail_drop, h]
  exact ⟨rfl, rfl⟩

/-- Pairing fails with the first entry that is misplaced, all before the position being in place. -/
theorem pair_drop_eq_error_iff {declared : List String} {entries : List Entry} {index : Nat}
    (before : ∀ j < index, ∀ other, ¬ Misplaced declared entries j other) {flaw : Flaw} :
    pair declared index (declared.drop index) (entries.drop index) = .error flaw ↔
      FirstMisplaced declared entries flaw := by
  induction rest : entries.drop index generalizing index with
  | nil =>
    have short := List.drop_eq_nil_iff.mp rest
    rw [pair]
    refine ⟨nofun, fun ⟨i, here, _⟩ => ?_⟩
    exact absurd here (before i (Nat.lt_of_lt_of_le here.lt_length short) flaw)
  | cons entry later ih =>
    obtain ⟨given, next⟩ := getElem?_of_drop rest
    cases names : declared.drop index with
    | nil =>
      have beyond := List.drop_eq_nil_iff.mp names
      rw [pair, Except.error.injEq, (Misplaced.surplus entry given beyond).first_iff before]
    | cons name names' =>
      obtain ⟨expected, onward⟩ := getElem?_of_drop names
      rw [pair]
      split
      · next stands =>
        have placed : ∀ j < index + 1, ∀ other, ¬ Misplaced declared entries j other := by
          intro j hj other there
          rcases Nat.lt_succ_iff_lt_or_eq.mp hj with lt | rfl
          · exact before j lt other there
          · cases there with
            | surplus _ _ beyond => simp [List.getElem?_eq_none beyond] at expected
            | misnamed entry' name' given' expected' misnamed =>
              cases Option.some.inj (given.symm.trans given')
              cases Option.some.inj (expected.symm.trans expected')
              exact misnamed stands
        rw [← ih placed next, onward]
        cases pair declared (index + 1) names' later with
        | error f => simp [bind, Except.bind]
        | ok paired => simp [bind, Except.bind, pure, Except.pure]
      · next other =>
        rw [Except.error.injEq, (Misplaced.misnamed entry name given expected other).first_iff before]

theorem pair_eq_error_iff {declared : List String} {entries : List Entry} {flaw : Flaw} :
    pair declared 0 declared entries = .error flaw ↔ FirstMisplaced declared entries flaw :=
  pair_drop_eq_error_iff (fun _ negative => absurd negative (Nat.not_lt_zero _))

theorem FirstMisplaced.exists {declared : List String} {entries : List Entry} {i : Nat} {flaw : Flaw}
    (h : Misplaced declared entries i flaw) : ∃ first, FirstMisplaced declared entries first := by
  induction i using Nat.strongRecOn generalizing flaw with
  | ind i ih =>
    by_cases before : ∀ j < i, ∀ other, ¬ Misplaced declared entries j other
    · exact ⟨flaw, i, h, before⟩
    · push Not at before
      obtain ⟨j, lt, other, there⟩ := before
      exact ih j lt there

/-- Nothing is misplaced just if each entry may stand at the field of its position. -/
theorem placed_iff {declared : List String} {entries : List Entry} :
    (∀ i flaw, ¬ Misplaced declared entries i flaw) ↔
      List.Forall₂ Entry.StandsAt entries (declared.take entries.length) := by
  have oks := @pair_eq_ok_iff declared declared 0 entries
  cases run : pair declared 0 declared entries with
  | error flaw =>
    obtain ⟨i, here, -⟩ := pair_eq_error_iff.mp run
    refine ⟨fun none => absurd here (none i flaw), fun standing => ?_⟩
    have := run.symm.trans (oks.mpr ⟨standing, rfl⟩)
    cases this
  | ok paired =>
    refine ⟨fun _ => (oks.mp run).1, fun _ i flaw here => ?_⟩
    obtain ⟨first, h⟩ := FirstMisplaced.exists here
    have := run.symm.trans (pair_eq_error_iff.mpr h)
    cases this

theorem covers_iff {type : RecordType} : a.Covers type ↔ a.entries ≠ [] ∧
    List.Forall₂ Entry.StandsAt a.entries type.fieldNames ∧
      ∃ entry ∈ a.entries, entry.kind ≠ .groupBy := by
  constructor
  · rintro ⟨one_each, filled, stands, computes⟩
    refine ⟨List.ne_nil_of_length_pos filled, List.forall₂_iff_get.mpr ⟨one_each, ?_⟩, computes⟩
    intro i h h'
    exact stands i _ _ (List.getElem?_eq_getElem h) (List.getElem?_eq_getElem h')
  · rintro ⟨filled, standing, computes⟩
    obtain ⟨one_each, stands⟩ := List.forall₂_iff_get.mp standing
    refine ⟨one_each, List.length_pos_iff.mpr filled, fun i entry name given expected => ?_, computes⟩
    obtain ⟨h, rfl⟩ := List.getElem?_eq_some_iff.mp given
    obtain ⟨h', rfl⟩ := List.getElem?_eq_some_iff.mp expected
    exact stands i h h'

theorem length_kinds_zip {entries : List Entry} {names : List String}
    (h : entries.length ≤ names.length) :
    ((entries.map (·.kind)).zip names).length = entries.length := by
  rw [List.length_zip, List.length_map, Nat.min_eq_left h]

/-- Where nothing is misplaced there are no more entries than fields. -/
theorem length_le_of_placed {declared : List String} {entries : List Entry}
    (placed : ∀ i flaw, ¬ Misplaced declared entries i flaw) :
    entries.length ≤ declared.length := by
  have standing := (placed_iff.mp placed).length_eq
  rw [List.length_take] at standing
  omega

theorem refused_of_decode {type : RecordType} {flaw : Flaw} (h : decode type a = .error flaw) :
    Refused type a flaw := by
  by_cases filled : a.entries = []
  · have flaws : decode type a = .error (.noFields type.name) := by
      simp [decode, filled, throw, throwThe, MonadExceptOf.throw, bind, Except.bind]
    cases flaws.symm.trans h
    exact .noFields (List.length_eq_zero_iff.mpr filled)
  rw [decode_eq filled] at h
  have some := List.length_pos_iff.mpr filled
  cases run : pair type.fieldNames 0 type.fieldNames a.entries with
  | error first =>
    rw [run] at h
    cases h
    exact .misplaced (pair_eq_error_iff.mp run)
  | ok paired =>
    obtain ⟨standing, rfl⟩ := pair_eq_ok_iff.mp run
    have placed := placed_iff.mpr standing
    have short := length_le_of_placed placed
    simp only [run, bind, Except.bind, length_kinds_zip short] at h
    split at h
    · next few =>
      cases h
      exact .tooFewFields some placed few
    · next covered =>
      split at h
      · next keys =>
        cases h
        have covered := Nat.not_lt.mp covered
        exact .onlyKeys some placed covered
          ((all_keys_iff (Nat.le_antisymm short covered)).mp keys)
      · cases h

theorem decode_of_refused {type : RecordType} {flaw : Flaw} (h : Refused type a flaw) :
    decode type a = .error flaw := by
  cases h with
  | noFields empty =>
    have none := List.length_eq_zero_iff.mp empty
    simp [decode, none, throw, throwThe, MonadExceptOf.throw, bind, Except.bind]
  | misplaced first =>
    have filled : a.entries ≠ [] := by
      obtain ⟨i, here, -⟩ := first
      exact List.ne_nil_of_length_pos (Nat.zero_lt_of_lt here.lt_length)
    rw [decode_eq filled, pair_eq_error_iff.mpr first]
    rfl
  | tooFewFields filled placed few =>
    have run : pair type.fieldNames 0 type.fieldNames a.entries = .ok _ :=
      pair_eq_ok_iff.mpr ⟨placed_iff.mp placed, rfl⟩
    rw [decode_eq (List.ne_nil_of_length_pos filled), run]
    simp only [bind, Except.bind, length_kinds_zip (Nat.le_of_lt few), few, if_true]
  | onlyKeys filled placed covered keys =>
    have run : pair type.fieldNames 0 type.fieldNames a.entries = .ok _ :=
      pair_eq_ok_iff.mpr ⟨placed_iff.mp placed, rfl⟩
    have short := length_le_of_placed placed
    have allKeys := (all_keys_iff (Nat.le_antisymm short covered)).mpr keys
    rw [decode_eq (List.ne_nil_of_length_pos filled), run]
    simp only [bind, Except.bind, length_kinds_zip short, Nat.not_lt.mpr covered, if_false, allKeys,
      if_true]

/-- An aggregation has a layout just if it covers the result type: the kinds of its entries with the
names of the fields. Otherwise it is refused for the first reason. -/
theorem decode_covers (type : RecordType) (a : Aggregation) :
    (∀ layout, decode type a = .ok layout ↔
      a.Covers type ∧ layout.entries = (a.entries.map (·.kind)).zip type.fieldNames) ∧
    ∀ flaw, decode type a = .error flaw ↔ Refused type a flaw := by
  refine ⟨fun layout => ?_, fun flaw => ⟨refused_of_decode, decode_of_refused⟩⟩
  rw [decode_eq_ok_iff, covers_iff, and_assoc, and_assoc]

/-- The first entry is out of order, and there is no field for the second. -/
example : decode ⟨"totals", [⟨"total", .int64, false⟩]⟩
    ⟨[⟨.groupBy, "region", .null⟩, ⟨.sum, "total", .int 1⟩]⟩ =
      .error (.outOfOrder 0 "total" "region") := rfl

end Layout

end RecordFlow.Aggregation
