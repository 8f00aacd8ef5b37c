import RecordFlow.Proofs.Pruning.Restrictions
import RecordFlow.Proofs.Schema.Depth

/-! The descent into a column. A nested schema of a remembered name takes the remembered columns, and
these are descended into in turn, so there is no end to it where a name recurs below itself. Main
statement: as long as what is remembered of record types are columns of theirs, a descent goes no
deeper than the type of the column is nested. -/

namespace RecordFlow.Restrictions

/-- What a descent comes to: the column in line with what is remembered, and whether it was
touched. -/
structure Descent where
  column : Column
  touched : Bool

/-- Brings a column in line with what is remembered, through as many records in one another as the
limit says; `none` if it goes deeper. -/
def descend (r : Restrictions) : Nat → Column → Option Descent
  | _, ⟨name, type, nullable, none⟩ => some ⟨⟨name, type, nullable, none⟩, false⟩
  | 0, ⟨_, _, _, some _⟩ => none
  | limit + 1, ⟨name, type, nullable, some nested⟩ => do
    let found := r.find? nested.name
    let inner ← (found.getD nested.columns).mapM (descend r limit)
    return ⟨⟨name, type, nullable, some ⟨nested.name, inner.map (·.column)⟩⟩,
      found.isSome || inner.any (·.touched)⟩

/-- Descends into all columns, into none deeper than its type is nested; also whether any was
touched. -/
def descendAll (r : Restrictions) (s : Schema) : Option (Schema × Bool) := do
  let inner ← s.columns.mapM fun c => r.descend c.type.depth c
  return ({ s with columns := inner.map (·.column) }, inner.any (·.touched))

/-- Narrowing by descents. -/
def narrowDescending (r : Restrictions) (s : Schema) (used : Option (List String)) :
    Option Update :=
  match used with
  | none | some [] => some ⟨s, r, false⟩
  | some names => do
    let (schema, _) ← r.descendAll (s.retain names)
    return ⟨schema, r.insert s.name schema.columns, true⟩

/-- Replaying by descents. -/
def replayDescending (r : Restrictions) (s : Schema) : Option Update :=
  match r.find? s.name with
  | some columns => do
    let (schema, _) ← r.descendAll { s with columns }
    return ⟨schema, r, true⟩
  | none => do
    let (schema, touched) ← r.descendAll s
    return if touched then ⟨schema, r.insert s.name schema.columns, true⟩ else ⟨schema, r, false⟩

/-- What is remembered of record types are columns of theirs. -/
def Prunes (r : Restrictions) (types : List RecordType) : Prop :=
  ∀ type ∈ types, ∀ columns, r.find? type.name = some columns →
    type.schema.Prunes ⟨type.name, columns⟩

/-- The descent into a column that shows a field goes no deeper than the type of the field is nested,
and `update` is what it makes of the column. -/
structure DescendsTo (r : Restrictions) (update : Column → Column) (field : Field) (c : Column) :
    Prop where
  ends : ∀ limit ≥ field.type.depth, r.descend limit c = some ⟨update c, r.touches c⟩
  shows : (update c).Shows field

variable {r : Restrictions} {types : List RecordType} {type : RecordType} {s : Schema}

theorem mapM_eq_some_map {α β : Type} {f : α → Option β} {g : α → β} {as : List α}
    (h : ∀ a ∈ as, f a = some (g a)) : as.mapM f = some (as.map g) := by
  induction as with
  | nil => rfl
  | cons a rest ih =>
    obtain ⟨here, later⟩ := List.forall_mem_cons.mp h
    rw [List.mapM_cons, here, ih later]
    rfl

/-! ### One column -/

section

variable {name record : String} {field : DataType} {nullable : Bool} {columns found : List Column}

theorem substituteWithin_flat (n : Nat) (r : Restrictions) :
    substituteWithin n r ⟨name, field, nullable, none⟩ = ⟨name, field, nullable, none⟩ := by
  cases n <;> rfl

theorem substituteWithin_unknown (n : Nat) (unknown : r.find? record = none) :
    substituteWithin n r ⟨name, field, nullable, some ⟨record, columns⟩⟩ =
      ⟨name, field, nullable, some ⟨record, columns.map (substituteWithin n r)⟩⟩ := by
  cases n with
  | zero =>
    have same : columns.map (substituteWithin 0 r) = columns := List.map_id _
    rw [same]
    rfl
  | succ n =>
    simp only [substituteWithin, Column.substitute, Schema.substitute, unknown, Option.map_none,
      Column.substituteAll_eq]

theorem substituteWithin_known (n : Nat) (known : r.find? record = some found) :
    substituteWithin (n + 1) r ⟨name, field, nullable, some ⟨record, columns⟩⟩ =
      ⟨name, field, nullable,
        some ⟨record, found.map (substituteWithin n (r.erase record))⟩⟩ := by
  simp only [substituteWithin, Column.substitute, Schema.substitute, known, Option.map_some]

theorem touches_nested :
    r.touches ⟨name, field, nullable, some ⟨record, columns⟩⟩ =
      ((r.find? record).isSome || columns.any r.touches) := by
  have each (cs : List Column) : Column.mentionsAny r.knows cs = cs.any r.touches := by
    induction cs with
    | nil => rfl
    | cons c rest ih => rw [Column.mentionsAny, ih, List.any_cons, touches]
  rw [touches, Column.mentions, Schema.mentions, each, knows]

theorem descend_flat (r : Restrictions) (limit : Nat) :
    r.descend limit ⟨name, field, nullable, none⟩ =
      some ⟨⟨name, field, nullable, none⟩, false⟩ := by
  rw [descend]

theorem descend_nested (r : Restrictions) {limit : Nat} {inner : List Descent}
    (h : ((r.find? record).getD columns).mapM (r.descend limit) = some inner) :
    r.descend (limit + 1) ⟨name, field, nullable, some ⟨record, columns⟩⟩ =
      some ⟨⟨name, field, nullable, some ⟨record, inner.map (·.column)⟩⟩,
        (r.find? record).isSome || inner.any (·.touched)⟩ := by
  simp only [descend, h, Option.bind_eq_bind, Option.bind_some, Option.pure_def]

/-- There is no end to a descent that meets a name again among the columns remembered for it. -/
theorem descend_eq_none {within : List Column} {d : Column} (known : r.find? record = some found)
    (recurs : d ∈ found) (again : d.nested = some ⟨record, within⟩) :
    ∀ (limit : Nat) (c : Column) (inner : List Column), c.nested = some ⟨record, inner⟩ →
      r.descend limit c = none
  | 0, ⟨_, _, _, _⟩, _, rfl => rfl
  | limit + 1, ⟨_, _, _, _⟩, _, rfl => by
    have below := descend_eq_none known recurs again limit d within again
    obtain ⟨front, back, rfl⟩ := List.append_of_mem recurs
    simp only [descend, known, Option.getD_some, List.mapM_append, List.mapM_cons, below,
      Option.bind_eq_bind, Option.bind_none, Option.bind_fun_none]

end

/-- The descent into a column around a record, the columns there being descended into. -/
theorem DescendsTo.around {field : Field} {inner : RecordType} {columns : List Column}
    {update outer : Column → Column} (reached : field.type.record? = some inner)
    (left : inner.schema.Prunes ⟨inner.name, (r.find? inner.name).getD columns⟩)
    (each : ∀ f ∈ inner.fields, ∀ c, c.Shows f → r.DescendsTo update f c)
    (same : outer ⟨field.name, field.type, field.nullable, some ⟨inner.name, columns⟩⟩ =
      ⟨field.name, field.type, field.nullable,
        some ⟨inner.name, ((r.find? inner.name).getD columns).map update⟩⟩) :
    r.DescendsTo outer field
      ⟨field.name, field.type, field.nullable, some ⟨inner.name, columns⟩⟩ := by
  have depth : field.type.depth = inner.depth := by
    rw [DataType.depth_eq, reached, Option.elim_some]
  refine ⟨fun limit enough => ?_, ?_⟩
  · have positive := inner.depth_pos
    obtain ⟨limit, rfl⟩ : ∃ n, limit = n + 1 := ⟨limit - 1, by omega⟩
    have ends : ∀ c ∈ (r.find? inner.name).getD columns,
        r.descend limit c = some ⟨update c, r.touches c⟩ := fun c hc => by
      obtain ⟨f, hf, shows⟩ := RecordType.exists_field_of_prunes left c hc
      have below := RecordType.depth_field_lt hf
      exact (each f hf c shows).ends limit (by omega)
    rw [descend_nested r (mapM_eq_some_map ends), same, touches_nested, List.map_map, List.any_map]
    cases r.find? inner.name <;> rfl
  · rw [same]
    exact .record reached (RecordType.prunes_map left fun f hf c shows => (each f hf c shows).shows)

/-- Inside the columns remembered for a name that name does not recur, so the descent makes the same
of a column as the bounded substitution, which looks no name up twice. -/
theorem descendsTo (family : RecordType.Family types) (prunes : r.Prunes types)
    (htype : type ∈ types) : ∀ field ∈ type.fields, ∀ c : Column, c.Shows field →
      ∀ (n : Nat) (r' : Restrictions), r'.entries.length ≤ n →
      (∀ inner ∈ field.type.parts, r'.find? inner.name = r.find? inner.name) →
      r.DescendsTo (substituteWithin n r') field c := by
  induction type using RecordType.induction with
  | step type ih =>
    -- Of the names in r those above the field are erased in r'; none of them recurs in its parts.
    intro field hfield c shows n r' bound same
    cases shows with
    | flat reached =>
      refine ⟨fun limit _ => ?_, ?_⟩
      · rw [descend_flat, substituteWithin_flat]
        rfl
      · rw [substituteWithin_flat]
        exact .flat reached
    | @record _ inner columns reached left =>
      have hinner := family.reached htype hfield reached
      have parts : field.type.parts = inner.parts := by
        rw [DataType.parts_eq, reached, Option.elim_some]
      rw [parts] at same
      have here := same inner (RecordType.mem_parts.mpr (.inl rfl))
      have inside (f : Field) (hf : f ∈ inner.fields) (t : RecordType) (ht : t ∈ f.type.parts) :
          r'.find? t.name = r.find? t.name := same t (RecordType.mem_parts_of_field hf ht)
      cases found : r.find? inner.name with
      | none =>
        have each (f : Field) (hf : f ∈ inner.fields) (c : Column) (shows : c.Shows f) :
            r.DescendsTo (substituteWithin n r') f c :=
          ih field hfield inner reached hinner f hf c shows n r' bound (inside f hf)
        refine .around reached (by rwa [found]) each ?_
        rw [found]
        exact substituteWithin_unknown n (here.trans found)
      | some remembered =>
        have fewer := length_erase_lt (here.trans found)
        obtain ⟨n, rfl⟩ : ∃ m, n = m + 1 := ⟨n - 1, by omega⟩
        have each (f : Field) (hf : f ∈ inner.fields) (c : Column) (shows : c.Shows f) :
            r.DescendsTo (substituteWithin n (r'.erase inner.name)) f c :=
          ih field hfield inner reached hinner f hf c shows n _ (by omega) fun t ht =>
            (find?_erase_of_ne r' (family.nested_ne hinner hf ht)).trans (inside f hf t ht)
        refine .around reached (by rw [found]; exact prunes inner hinner _ found) each ?_
        rw [found]
        exact substituteWithin_known n (here.trans found)

/-- A descent into what is left of a record type. -/
theorem Prunes.descendsTo (prunes : r.Prunes types) (family : RecordType.Family types)
    (htype : type ∈ types) {field : Field} (hfield : field ∈ type.fields) {c : Column}
    (shows : c.Shows field) : r.DescendsTo r.updateColumn field c :=
  Restrictions.descendsTo family prunes htype field hfield c shows _ r (Nat.le_refl _)
    fun _ _ => rfl

/-! ### Narrowing and replaying -/

theorem Prunes.updateColumns (prunes : r.Prunes types) (family : RecordType.Family types)
    (htype : type ∈ types) (left : type.schema.Prunes s) :
    type.schema.Prunes (r.updateColumns s) :=
  RecordType.prunes_map left fun _ hf _ shows => (prunes.descendsTo family htype hf shows).shows

theorem Prunes.descendAll (prunes : r.Prunes types) (family : RecordType.Family types)
    (htype : type ∈ types) (left : type.schema.Prunes s) :
    r.descendAll s = some (r.updateColumns s, s.columns.any r.touches) := by
  have ends : ∀ c ∈ s.columns,
      r.descend c.type.depth c = some ⟨r.updateColumn c, r.touches c⟩ := fun c hc => by
    obtain ⟨field, hfield, shows⟩ := RecordType.exists_field_of_prunes left c hc
    rw [shows.type_eq]
    exact (prunes.descendsTo family htype hfield shows).ends _ (Nat.le_refl _)
  rw [Restrictions.descendAll, mapM_eq_some_map ends]
  simp only [Option.bind_eq_bind, Option.bind_some, Option.pure_def, List.map_map, List.any_map]
  rfl

theorem Prunes.insert (prunes : r.Prunes types) (family : RecordType.Family types)
    (htype : type ∈ types) (left : type.schema.Prunes s) :
    (r.insert s.name s.columns).Prunes types := by
  have named : s.name = type.name := (RecordType.prunes_iff.mp left).1
  intro t ht columns found
  rw [find?_insert] at found
  split at found
  · next same =>
    obtain rfl := family.coherent t ht type htype (same.trans named)
    cases found
    rwa [← named]
  · exact prunes t ht columns found

/-- An update of a schema that descends as far as it needs, and leaves of a record type what is left
of it. -/
structure Keeps (types : List RecordType) (type : RecordType) (u : Update)
    (descending : Option Update) : Prop where
  ends : descending = some u
  schema : type.schema.Prunes u.schema
  restrictions : u.restrictions.Prunes types

theorem Prunes.narrow (prunes : r.Prunes types) (family : RecordType.Family types)
    (htype : type ∈ types) (left : type.schema.Prunes s) (used : Option (List String)) :
    Keeps types type (r.narrow s used) (r.narrowDescending s used) := by
  match used with
  | none | some [] => exact ⟨rfl, left, prunes⟩
  | some (n :: rest) =>
    have retained := RecordType.prunes_retain left (n :: rest)
    have updated := prunes.updateColumns family htype retained
    refine ⟨?_, updated, prunes.insert family htype updated⟩
    simp only [narrowDescending, prunes.descendAll family htype retained, Option.bind_eq_bind,
      Option.bind_some, Option.pure_def, Restrictions.narrow]

theorem Prunes.replay (prunes : r.Prunes types) (family : RecordType.Family types)
    (htype : type ∈ types) (left : type.schema.Prunes s) :
    Keeps types type (r.replay s) (r.replayDescending s) := by
  have named : s.name = type.name := (RecordType.prunes_iff.mp left).1
  cases found : r.find? s.name with
  | some columns =>
    have remembered : type.schema.Prunes { s with columns } := by
      rw [named] at found
      exact named ▸ prunes type htype columns found
    simp only [Restrictions.replay, replayDescending, found,
      prunes.descendAll family htype remembered, Option.bind_eq_bind, Option.bind_some,
      Option.pure_def]
    exact ⟨rfl, prunes.updateColumns family htype remembered, prunes⟩
  | none =>
    have updated := prunes.updateColumns family htype left
    simp only [Restrictions.replay, replayDescending, found,
      prunes.descendAll family htype left, Option.bind_eq_bind, Option.bind_some, Option.pure_def]
    split
    · exact ⟨rfl, updated, prunes.insert family htype updated⟩
    · exact ⟨rfl, updated, prunes⟩

end RecordFlow.Restrictions
