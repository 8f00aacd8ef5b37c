import Mathlib.Data.List.Forall2
import RecordFlow.Memory.Matching
import RecordFlow.Proofs.Evaluation
import RecordFlow.Proofs.Schema.Alike
import RecordFlow.Pruning.Resolution

/-! Joins of related records. Where keys agree, indexes find related matches under every key, and a
join that leaves some of its sides out fills the columns of the others alike. -/

namespace RecordFlow

/-! ### Two computations -/

/-- Whenever the second computation succeeds, so does the first, with a related result. -/
def Simulates {α β : Type} (R : α → β → Prop) (x : Except Error α) (x' : Except Error β) : Prop :=
  ∀ b, x' = .ok b → ∃ a, x = .ok a ∧ R a b

namespace Simulates

variable {α α' β β' : Type} {R : α → α' → Prop} {Q : β → β' → Prop}

theorem ok {a : α} {b : α'} (h : R a b) : Simulates R (.ok a) (.ok b) := by
  rintro _ ⟨⟩
  exact ⟨a, rfl, h⟩

theorem bind {x : Except Error α} {x' : Except Error α'} {f : α → Except Error β}
    {f' : α' → Except Error β'} (h : Simulates R x x')
    (hf : ∀ a b, R a b → Simulates Q (f a) (f' b)) : Simulates Q (x >>= f) (x' >>= f') := by
  intro c hc
  obtain ⟨b, hb, hc⟩ := exists_of_bind_ok hc
  obtain ⟨a, rfl, hab⟩ := h b hb
  exact hf a b hab c hc

theorem mapM {f : α → Except Error β} {f' : α' → Except Error β'}
    (h : ∀ a b, R a b → Simulates Q (f a) (f' b)) {as : List α} {bs : List α'}
    (like : List.Forall₂ R as bs) : Simulates (List.Forall₂ Q) (as.mapM f) (bs.mapM f') := by
  induction like with
  | nil => exact .ok .nil
  | cons first _ ih =>
    rw [List.mapM_cons, List.mapM_cons]
    exact (h _ _ first).bind fun _ _ hq => ih.bind fun _ _ hqs => .ok (.cons hq hqs)

end Simulates

/-! ### Records -/

theorem Record.value_set (r : Record) (name : String) (v : Value) (x : String) :
    (r.set name v).value x = if x = name then v else r.value x := by
  obtain ⟨fields⟩ := r
  simp only [value, get?, set]
  induction fields with
  | nil =>
    rw [setField, List.lookup_cons]
    by_cases h : x = name
    · simp [h]
    · rw [beq_eq_false_iff_ne.mpr h, if_neg h]
  | cons field rest ih =>
    obtain ⟨n, w⟩ := field
    unfold setField
    split
    · next hn =>
      subst hn
      rw [List.lookup_cons, List.lookup_cons]
      by_cases h : x = n
      · simp [h]
      · rw [beq_eq_false_iff_ne.mpr h, if_neg h]
    · next hn =>
      rw [List.lookup_cons, List.lookup_cons]
      by_cases h : x = n
      · subst h
        simp [hn]
      · rw [beq_eq_false_iff_ne.mpr h]
        exact ih

namespace Memory

open Resolution (filledColumns)

variable {R : Record → Record → Prop}

/-! ### Indexes -/

/-- Matches of one source whose records are related. -/
def Match.Like (R : Record → Record → Prop) (m m' : Match) : Prop :=
  m.ordinal = m'.ordinal ∧ R m.record m'.record

namespace Index

/-- Indexes with the same keys and related matches under each. -/
def Like (R : Record → Record → Prop) (i i' : Index) : Prop :=
  List.Forall₂ (fun e e' => e.1 = e'.1 ∧ List.Forall₂ (Match.Like R) e.2 e'.2) i.entries i'.entries

theorem addIn_like {key : Value} {m m' : Match} (hm : m.Like R m')
    {entries entries' : List (Value × List Match)} (h : Like R ⟨entries⟩ ⟨entries'⟩) :
    Like R ⟨addIn key m entries⟩ ⟨addIn key m' entries'⟩ := by
  simp only [Like] at h ⊢
  induction h with
  | nil => exact .cons ⟨rfl, .cons hm .nil⟩ .nil
  | @cons e e' rest rest' first others ih =>
    obtain ⟨k, ms⟩ := e
    obtain ⟨k', ms'⟩ := e'
    obtain ⟨rfl, found⟩ := first
    unfold addIn
    split
    · exact .cons ⟨rfl, List.rel_append found (.cons hm .nil)⟩ others
    · exact .cons ⟨rfl, found⟩ ih

theorem add_like {key : Value} {m m' : Match} (hm : m.Like R m') {i i' : Index} (h : i.Like R i') :
    (i.add key m).Like R (i'.add key m') := by
  unfold add
  split
  · exact h
  · exact addIn_like hm h

theorem addSources_like {key : Record → Value} (keys : ∀ r r', R r r' → key r = key r')
    {sources sources' : List (List Record)} (h : List.Forall₂ (List.Forall₂ R) sources sources') :
    ∀ (ordinal : Nat) {i i' : Index}, i.Like R i' →
      (addSources key ordinal sources i).Like R (addSources key ordinal sources' i') := by
  induction h with
  | nil => exact fun _ _ _ like => like
  | cons first _ ih =>
    intro ordinal i i' like
    refine ih (ordinal + 1) ?_
    refine List.rel_foldl (fun _ _ hi r r' hr => ?_) like first
    rw [keys r r' hr]
    have matched : Match.Like R ⟨ordinal, r⟩ ⟨ordinal, r'⟩ := ⟨rfl, hr⟩
    exact add_like matched hi

theorem find_like {i i' : Index} (h : i.Like R i') (key : Value) :
    List.Forall₂ (Match.Like R) (i.find key) (i'.find key) := by
  obtain ⟨entries⟩ := i
  obtain ⟨entries'⟩ := i'
  simp only [Like, find] at h ⊢
  induction h with
  | nil => exact .nil
  | @cons e e' rest rest' first _ ih =>
    obtain ⟨k, ms⟩ := e
    obtain ⟨k', ms'⟩ := e'
    obtain ⟨rfl, found⟩ := first
    rw [List.lookup_cons, List.lookup_cons]
    cases key == k with
    | true => exact found
    | false => exact ih

end Index

/-! ### Attaching matches -/

/-- A side of a join. -/
def side (j : Join) (sources : List (List Record)) : JoinInput (List Record) :=
  ⟨j.field, j.kind, sources, j.key, j.indexField?⟩

theorem conform_set {c : Column} {r r' : Record} {name : String} {v w : Value}
    (here : c.name = name → c.conform v = c.conform w)
    (other : c.name ≠ name → c.conform (r.value c.name) = c.conform (r'.value c.name)) :
    c.conform ((r.set name v).value c.name) = c.conform ((r'.set name w).value c.name) := by
  rw [Record.value_set, Record.value_set]
  by_cases h : c.name = name
  · rw [if_pos h, if_pos h, here h]
  · rw [if_neg h, if_neg h, other h]

theorem conform_matches {c : Column}
    (records : ∀ r r', R r r' → c.conform (.record r) = c.conform (.record r'))
    {ms ms' : List Match} (h : List.Forall₂ (Match.Like R) ms ms') :
    c.conform (.list (ms.map fun m => .record m.record)) =
      c.conform (.list (ms'.map fun m => .record m.record)) := by
  rw [Column.conform_list, Column.conform_list, List.map_map, List.map_map]
  refine congrArg Value.list ?_
  induction h with
  | nil => rfl
  | cons first _ ih =>
    rw [List.map_cons, List.map_cons, ih]
    exact congrArg (· :: _) (records _ _ first.2)

theorem map_ordinal {ms ms' : List Match} (h : List.Forall₂ (Match.Like R) ms ms') :
    (ms.map fun m => Value.int (.ofNat m.ordinal)) = ms'.map fun m => .int (.ofNat m.ordinal) := by
  induction h with
  | nil => rfl
  | cons first _ ih => rw [List.map_cons, List.map_cons, ih, first.1]

/-- Related matches fill columns alike, and leave the others as they are. -/
theorem attach_simulates {j : Join} {sources sources' : List (List Record)} {key : Value}
    {ms ms' : List Match} (h : List.Forall₂ (Match.Like R) ms ms') (r r' : Record) :
    Simulates (fun t t' => ∀ c : Column,
        (c.name = j.field → ∀ r r', R r r' → c.conform (.record r) = c.conform (.record r')) →
        (c.name ∉ filledColumns j → c.conform (r.value c.name) = c.conform (r'.value c.name)) →
        c.conform (t.value c.name) = c.conform (t'.value c.name))
      (attach (side j sources) key ms r) (attach (side j sources') key ms' r') := by
  obtain ⟨field, kind, ids, joinKey⟩ := j
  -- A side without positions fills its field and no other column.
  have only {c : Column} (hkind : kind ≠ .multiArray) (hne : c.name ≠ field) :
      c.name ∉ filledColumns ⟨field, kind, ids, joinKey⟩ := by
    cases kind with
    | multiArray => exact absurd rfl hkind
    | single | multi => simpa [filledColumns, Join.indexField?] using hne
  cases kind with
  | single =>
    cases h with
    | nil =>
      exact .ok fun c _ other => conform_set (fun _ => rfl) fun hne => other (only (by decide) hne)
    | cons first rest =>
      cases rest with
      | cons => rintro _ ⟨⟩
      | nil =>
        exact .ok fun c records other => conform_set (fun he => records he _ _ first.2)
          fun hne => other (only (by decide) hne)
  | multi =>
    exact .ok fun c records other => conform_set (fun he => conform_matches (records he) h)
      fun hne => other (only (by decide) hne)
  | multiArray =>
    refine .ok fun c records other => conform_set (fun _ => by rw [map_ordinal h]) fun hindex => ?_
    refine conform_set (fun he => conform_matches (records he) h) fun hne => other ?_
    have field : c.name ≠ field := hne
    simp [filledColumns, Join.indexField?, field, hindex]

/-- A side that is attached fills its own columns only. -/
theorem value_attach {j : Join} {sources : List (List Record)} {key : Value} {ms : List Match}
    {r t : Record} (hok : attach (side j sources) key ms r = .ok t) {x : String}
    (hx : x ∉ filledColumns j) : t.value x = r.value x := by
  obtain ⟨field, kind, ids, joinKey⟩ := j
  simp only [filledColumns, Join.indexField?, List.mem_cons, not_or] at hx
  cases kind with
  | single =>
    rcases ms with _ | ⟨m, _ | ⟨m', ms⟩⟩ <;> cases hok <;>
      exact (Record.value_set ..).trans (if_neg hx.1)
  | multi =>
    cases hok
    exact (Record.value_set ..).trans (if_neg hx.1)
  | multiArray =>
    simp only [Option.toList_some, List.mem_cons, List.not_mem_nil, or_false] at hx
    cases hok
    rw [Record.value_set, if_neg hx.2]
    exact (Record.value_set ..).trans (if_neg hx.1)

/-! ### Whole joins -/

/-- The sides of joins of which some are performed and others left out, with related records in the
sources of the former. -/
inductive Sides (R : Join → Record → Record → Prop) (performed : Join → Bool) :
    List Join → List (JoinInput (List Record)) → List (JoinInput (List Record)) → Prop
  | nil : Sides R performed [] [] []
  | perform {j : Join} {joins : List Join} {sides sides' : List (JoinInput (List Record))}
      {sources sources' : List (List Record)} : performed j = true →
      List.Forall₂ (List.Forall₂ (R j)) sources sources' → Sides R performed joins sides sides' →
      Sides R performed (j :: joins) (side j sources :: sides) (side j sources' :: sides')
  | leaveOut {j : Join} {joins : List Join} {sides sides' : List (JoinInput (List Record))}
      {sources' : List (List Record)} : performed j = false → Sides R performed joins sides sides' →
      Sides R performed (j :: joins) sides (side j sources' :: sides')

/-- What makes joins fill the used columns of a schema alike. -/
structure Fills (used : ColumnSet) (s : Schema) (R : Join → Record → Record → Prop)
    (performed : Join → Bool) (j : Join) : Prop where
  keys : ∀ r r', R j r r' → j.key r = j.key r'
  records : ∀ c ∈ s.columns, used s.name c.name = true → c.name = j.field → ∀ r r', R j r r' →
    (c.restrict used).conform (.record r) = (c.restrict used).conform (.record r')
  used : ∀ c ∈ s.columns, used s.name c.name = true → c.name ∈ filledColumns j → performed j = true

variable {used kept : ColumnSet} {s : Schema} {J : Join → Record → Record → Prop}
  {performed : Join → Bool}

/-- Records that are the same in used columns but for those still to be filled are the same in all
of them at the end. -/
theorem attachAll_simulates {joins : List Join} {sides sides' : List (JoinInput (List Record))}
    (h : Sides J performed joins sides sides') (fills : ∀ j ∈ joins, Fills used s J performed j)
    (key : Value) {r r' : Record}
    (same : ∀ c ∈ s.columns, used s.name c.name = true → c.name ∉ joins.flatMap filledColumns →
      (c.restrict used).conform (r.value c.name) = (c.restrict used).conform (r'.value c.name)) :
    Simulates (fun t t' => (s.restrict used).conform t = (s.restrict used).conform t')
      (attachAll key (sides.map fun side => (side, Index.build side)) r)
      (attachAll key (sides'.map fun side => (side, Index.build side)) r') := by
  induction h generalizing r r' with
  | nil =>
    refine .ok ?_
    rw [Schema.restrict_eq_prune, Schema.conform_prune_eq_iff]
    exact fun c hc hu => same c hc hu List.not_mem_nil
  | @perform j joins sides sides' sources sources' _ like _ ih =>
    have fill := fills j (List.mem_cons_self ..)
    have index : (Index.build (side j sources)).Like (J j) (Index.build (side j sources')) :=
      Index.addSources_like fill.keys like 0 .nil
    refine (attach_simulates (Index.find_like index key) r r').bind fun next next' columns => ?_
    refine ih (fun k hk => fills k (List.mem_cons_of_mem _ hk)) fun c hc hu hrest => ?_
    have here := columns (c.restrict used)
    rw [Column.restrict_name] at here
    refine here (fill.records c hc hu) fun hne => same c hc hu ?_
    rw [List.flatMap_cons, List.mem_append, not_or]
    exact ⟨hne, hrest⟩
  | @leaveOut j joins sides sides' sources' left _ ih =>
    intro t' hok
    obtain ⟨next', hnext', hok⟩ := exists_of_bind_ok hok
    refine ih (fun k hk => fills k (List.mem_cons_of_mem _ hk)) (fun c hc hu hrest => ?_) t' hok
    -- The side that is left out fills no used column.
    have hne : c.name ∉ filledColumns j := fun hmem => by
      have := (fills j (List.mem_cons_self ..)).used c hc hu hmem
      rw [left] at this
      cases this
    rw [value_attach hnext' hne]
    refine same c hc hu ?_
    rw [List.flatMap_cons, List.mem_append, not_or]
    exact ⟨hne, hrest⟩

/-- A join makes alike records of related ones. -/
theorem joinLeft_simulates {schemas : List Schema} (catalog : Schema.Catalog schemas)
    (within : Schema.Within schemas used kept) (hs : s ∈ schemas) {shown : String → Bool}
    (shows : ∀ x ∈ s.names, used s.name x = true → shown x = true) {joins : List Join}
    {sides sides' : List (JoinInput (List Record))} (h : Sides J performed joins sides sides')
    (fills : ∀ j ∈ joins, Fills used s J performed j) {key : Record → Value}
    (keys : ∀ r r', R r r' → key r = key r')
    (same : ∀ r r', R r r' → ∀ c ∈ s.columns, used s.name c.name = true →
      c.name ∉ joins.flatMap filledColumns →
      (c.restrict used).conform (r.value c.name) = (c.restrict used).conform (r'.value c.name))
    {left left' : List Record} (like : List.Forall₂ R left left') :
    Simulates (List.Forall₂ (s.Alike used kept)) (joinLeft left key sides (s.prune shown kept))
      (joinLeft left' key sides' s) := by
  refine .mapM (fun r r' related => ?_) like
  rw [keys r r' related]
  refine (attachAll_simulates h fills (key r') (same r r' related)).bind fun t t' looks => .ok ?_
  exact Schema.alike_conform catalog within hs shows looks

end Memory

end RecordFlow
