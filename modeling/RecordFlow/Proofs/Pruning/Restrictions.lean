import RecordFlow.Proofs.Schema.Restrict
import RecordFlow.Pruning.Restrictions

/-! What remembered columns make of a schema. Record types of one name being equal, no name recurs
below itself, and bringing a schema in line with what is remembered leaves at every depth just the
columns that are remembered for the name there. -/

namespace RecordFlow

open Schema (Catalog AgreeOn)

theorem Schema.any_columns (s : Schema) (x : String) :
    s.columns.any (·.name == x) = decide (x ∈ s.names) := by
  rw [Bool.eq_iff_iff]
  simp [Schema.names]

theorem Column.substituteAll_eq (look : String → Option (List Column)) (cs : List Column) :
    substituteAll look cs = cs.map (substitute look) := by
  induction cs with
  | nil => rfl
  | cons c rest ih => rw [substituteAll, ih, List.map_cons]

/-- Columns in which `look` replaces what is nested by kept columns, or leaves what both sets keep. -/
theorem Column.substitute_restrict {look : String → Option (List Column)} {kept kept' : ColumnSet}
    {cs : List Column}
    (h : ∀ t ∈ partsAll cs, look t.name = some (t.restrict kept').columns ∨
      look t.name = none ∧ ∀ x ∈ t.names, kept t.name x = kept' t.name x) :
    ∀ c ∈ cs, (c.restrict kept).substitute look = c.restrict kept' := by
  induction cs using Column.induction with
  | nil => simp
  | flat name type nullable rest ih =>
    intro c hc
    rcases List.mem_cons.mp hc with rfl | hc
    · rfl
    · exact ih h c hc
  | nested name type nullable record inner rest ihInner ihRest =>
    simp only [partsAll_nested, List.mem_cons, List.mem_append] at h
    intro c hc
    rcases List.mem_cons.mp hc with rfl | hc
    · simp only [restrict, Schema.restrict, substitute, Schema.substitute]
      rcases h ⟨record, inner⟩ (.inl rfl) with found | ⟨missing, same⟩
      · simp only [found, Schema.restrict]
      · have inside := ihInner fun t ht => h t (.inr (.inl ht))
        have shown : inner.filter (kept record ·.name) = inner.filter (kept' record ·.name) :=
          List.filter_congr fun c hc =>
            same c.name (Schema.mem_names (s := ⟨record, inner⟩) hc)
        simp only [missing, substituteAll_eq, restrictAll_eq, shown, List.map_map]
        have mapped : (inner.filter (kept' record ·.name)).map (substitute look ∘ restrict kept) =
            (inner.filter (kept' record ·.name)).map (restrict kept') :=
          List.map_congr_left fun c hc => inside c (List.mem_filter.mp hc).1
        rw [mapped]
    · exact ihRest (fun t ht => h t (.inr (.inr ht))) c hc

namespace Restrictions

/-! ### Looking up names -/

theorem lookup_filter_ne (n m : String) (entries : List (String × List Column)) :
    (entries.filter (·.1 != n)).lookup m = if m = n then none else entries.lookup m := by
  induction entries with
  | nil => simp
  | cons e rest ih =>
    obtain ⟨k, cs⟩ := e
    rw [List.filter_cons, List.lookup_cons]
    by_cases hk : k = n
    · subst hk
      simp only [bne_self_eq_false, Bool.false_eq_true, if_false, ih]
      by_cases hm : m = k
      · simp [hm]
      · simp [hm, beq_eq_false_iff_ne.mpr hm]
    · have : (k != n) = true := bne_iff_ne.mpr hk
      simp only [this, if_true, List.lookup_cons, ih]
      by_cases hm : m = k
      · subst hm
        simp [hk]
      · simp only [beq_eq_false_iff_ne.mpr hm]

theorem find?_erase (r : Restrictions) (n m : String) :
    (r.erase n).find? m = if m = n then none else r.find? m :=
  lookup_filter_ne n m r.entries

theorem find?_erase_of_ne (r : Restrictions) {n m : String} (h : m ≠ n) :
    (r.erase n).find? m = r.find? m := by
  rw [find?_erase, if_neg h]

theorem find?_insert (r : Restrictions) (n m : String) (columns : List Column) :
    (r.insert n columns).find? m = if m = n then some columns else r.find? m := by
  rw [insert, find?, List.lookup_cons]
  by_cases h : m = n
  · simp [h]
  · rw [beq_eq_false_iff_ne.mpr h, if_neg h]
    exact r.find?_erase_of_ne h

theorem length_erase_lt {r : Restrictions} {n : String} {columns : List Column}
    (h : r.find? n = some columns) : (r.erase n).entries.length < r.entries.length := by
  refine Nat.lt_of_le_of_ne (List.length_filter_le ..) fun he => ?_
  have none := r.find?_erase n n
  have all : (r.erase n).entries = r.entries :=
    List.filter_eq_self.mpr (List.length_filter_eq_length_iff.mp he)
  rw [find?, all, ← find?, if_pos rfl, h] at none
  cases none

/-! ### The columns that are remembered

Schemas need not start out whole: `base` tells what the nested schemas were restricted to before
anything is remembered of their names. -/

/-- The columns kept of what is remembered, all where nothing is. -/
def keeps (r : Restrictions) : ColumnSet := fun record column =>
  match r.find? record with
  | none => true
  | some columns => columns.any (·.name == column)

/-- The columns kept of what is remembered, those of the base where nothing is. -/
def keepsOver (r : Restrictions) (base : ColumnSet) : ColumnSet := fun record column =>
  match r.find? record with
  | none => base record column
  | some columns => columns.any (·.name == column)

/-- Of schemas of unknown names just the base is kept. -/
def Covers (r : Restrictions) (base : ColumnSet) (parts : List Schema) (kept : ColumnSet) : Prop :=
  ∀ t ∈ parts, ∀ x ∈ t.names, r.find? t.name = none → kept t.name x = base t.name x

/-- The columns remembered for the name of a schema are some of its columns. -/
def Remembers (r : Restrictions) (base : ColumnSet) (parts : List Schema) : Prop :=
  ∀ t ∈ parts, ∀ columns, r.find? t.name = some columns → ∃ shown kept,
    columns = (t.prune shown kept).columns ∧ r.Covers base (Column.partsAll t.columns) kept

variable {base : ColumnSet}

theorem keepsOver_all (r : Restrictions) : r.keepsOver .all = r.keeps := rfl

theorem keeps_of_find?_eq_none {r : Restrictions} {n : String} (h : r.find? n = none) (x : String) :
    r.keeps n x = true := by
  simp only [keeps, h]

theorem keepsOver_of_find?_eq_none {r : Restrictions} {n : String} (h : r.find? n = none)
    (x : String) : r.keepsOver base n x = base n x := by
  simp only [keepsOver, h]

theorem keepsOver_of_find?_ne_none {r : Restrictions} {n : String} (h : r.find? n ≠ none)
    (x : String) : r.keepsOver base n x = r.keeps n x := by
  obtain ⟨columns, hf⟩ := Option.ne_none_iff_exists'.mp h
  simp only [keepsOver, keeps, hf]

theorem keeps_of_find?_eq_prune {r : Restrictions} {t : Schema} {shown : String → Bool}
    {kept : ColumnSet} (h : r.find? t.name = some (t.prune shown kept).columns) :
    ∀ x ∈ t.names, r.keeps t.name x = shown x := by
  intro x hx
  simp only [keeps, h, Schema.any_columns, Schema.prune_names]
  simp [hx]

theorem keepsOver_erase_of_ne (r : Restrictions) {n m : String} (h : m ≠ n) (x : String) :
    (r.erase n).keepsOver base m x = r.keepsOver base m x := by
  simp only [keepsOver, r.find?_erase_of_ne h]

theorem covers_keepsOver (r : Restrictions) (base : ColumnSet) (parts : List Schema) :
    r.Covers base parts (r.keepsOver base) :=
  fun _ _ x _ h => keepsOver_of_find?_eq_none h x

theorem covers_base (r : Restrictions) (base : ColumnSet) (parts : List Schema) :
    r.Covers base parts base :=
  fun _ _ _ _ _ => rfl

theorem Covers.mono {r r' : Restrictions} {parts parts' : List Schema} {kept : ColumnSet}
    (h : r.Covers base parts kept) (hp : ∀ t ∈ parts', t ∈ parts)
    (hr : ∀ t ∈ parts', r'.find? t.name = none → r.find? t.name = none) :
    r'.Covers base parts' kept :=
  fun t ht x hx hn => h t (hp t ht) x hx (hr t ht hn)

theorem Remembers.mono {r : Restrictions} {parts parts' : List Schema}
    (h : r.Remembers base parts) (hp : ∀ t ∈ parts', t ∈ parts) : r.Remembers base parts' :=
  fun t ht => h t (hp t ht)

/-- Inside a schema its own name may be forgotten. -/
theorem Remembers.erase {schemas : List Schema} (catalog : Catalog schemas) {r : Restrictions}
    {s : Schema} (hs : s ∈ schemas) (h : r.Remembers base (Column.partsAll s.columns)) :
    (r.erase s.name).Remembers base (Column.partsAll s.columns) := by
  intro t ht columns hf
  rw [find?_erase_of_ne r (catalog.nested_ne hs ht)] at hf
  obtain ⟨shown, kept, he, covers⟩ := h t ht columns hf
  refine ⟨shown, kept, he, covers.mono (fun _ hu => hu) fun u hu hn => ?_⟩
  rwa [find?_erase_of_ne r (catalog.nested_ne hs (Column.partsAll_trans ht hu))] at hn

/-- The number of names is depth enough. -/
theorem substituteWithin_restrict {schemas : List Schema} (catalog : Catalog schemas) :
    ∀ (depth : Nat) (r : Restrictions) (kept : ColumnSet) (cs : List Column),
      r.entries.length ≤ depth → (∀ t ∈ Column.partsAll cs, t ∈ schemas) →
      r.Remembers base (Column.partsAll cs) → r.Covers base (Column.partsAll cs) kept →
      ∀ c ∈ cs, substituteWithin depth r (c.restrict kept) = c.restrict (r.keepsOver base)
  | 0, r, kept, cs, hdepth, _, _, covers => by
    intro c hc
    have none (n : String) : r.find? n = none := by
      rw [find?, List.length_eq_zero_iff.mp (Nat.le_zero.mp hdepth)]
      rfl
    refine Column.restrict_congr (fun t ht x hx => ?_) c hc
    rw [covers t ht x hx (none _), keepsOver_of_find?_eq_none (none _)]
  | depth + 1, r, kept, cs, hdepth, hmem, remembers, covers => by
    refine Column.substitute_restrict fun t ht => ?_
    have hts := hmem t ht
    cases hf : r.find? t.name with
    | none =>
      refine .inr ⟨rfl, fun x hx => ?_⟩
      rw [covers t ht x hx hf, keepsOver_of_find?_eq_none hf]
    | some columns =>
      left
      obtain ⟨shown, kept', rfl, covers'⟩ := remembers t ht columns hf
      have inside : ∀ c ∈ t.columns, substituteWithin depth (r.erase t.name) (c.restrict kept') =
          c.restrict (r.keepsOver base) := by
        intro c hc
        have shorter := length_erase_lt hf
        rw [substituteWithin_restrict catalog depth (r.erase t.name) kept' t.columns (by omega)
          (catalog.closed t hts)
          ((remembers.mono fun u hu => Column.partsAll_trans ht hu).erase catalog hts)
          (covers'.mono (fun _ hu => hu) fun u hu hn => by
            rwa [find?_erase_of_ne r (catalog.nested_ne hts hu)] at hn) c hc]
        exact Column.restrict_congr
          (fun u hu x _ => keepsOver_erase_of_ne r (catalog.nested_ne hts hu) x) c hc
      have known : r.find? t.name ≠ none := by simp [hf]
      have filtered : t.columns.filter (shown ·.name) =
          t.columns.filter (r.keepsOver base t.name ·.name) := by
        refine List.filter_congr fun c hc => ?_
        rw [keepsOver_of_find?_ne_none known, keeps_of_find?_eq_prune hf c.name
          (Schema.mem_names hc)]
      simp only [Option.map_some, Schema.restrict_eq_prune, Schema.prune, List.map_map, filtered]
      exact congrArg some (List.map_congr_left fun c hc => inside c (List.mem_filter.mp hc).1)

variable {schemas : List Schema} {r : Restrictions} {s : Schema} {shown : String → Bool}
  {kept : ColumnSet}

theorem substituteWithin_name (depth : Nat) (r : Restrictions) (c : Column) :
    (substituteWithin depth r c).name = c.name := by
  obtain ⟨_, _, _, nested⟩ := c
  cases depth <;> cases nested <;> rfl

/-- Columns are changed in place, so that the table of their positions stays right. -/
theorem positions_updateColumns (r : Restrictions) (s : Schema) :
    (r.updateColumns s).positions = s.positions := by
  have names : (r.updateColumns s).names = s.names := by
    rw [Schema.names, updateColumns, List.map_map]
    exact List.map_congr_left fun c _ => substituteWithin_name _ r c
  rw [Schema.positions, Schema.positions, names]

theorem updateColumns_prune (catalog : Catalog schemas) (hs : s ∈ schemas)
    (remembers : r.Remembers base schemas)
    (covers : r.Covers base (Column.partsAll s.columns) kept) :
    r.updateColumns (s.prune shown kept) = s.prune shown (r.keepsOver base) := by
  have inside := substituteWithin_restrict catalog r.entries.length r kept s.columns (Nat.le_refl _)
    (catalog.closed s hs) (remembers.mono (catalog.closed s hs)) covers
  simp only [updateColumns, Schema.prune, List.map_map, Schema.mk.injEq, true_and]
  exact List.map_congr_left fun c hc => inside c (List.mem_filter.mp hc).1

/-! ### Remembering more -/

theorem find?_eq_none_of_insert {n m : String} {columns : List Column}
    (h : (r.insert n columns).find? m = none) : r.find? m = none := by
  rw [find?_insert] at h
  split at h
  · cases h
  · exact h

/-- What is kept once some columns of a schema are remembered. -/
theorem keeps_insert_prune (catalog : Catalog schemas) (hs : s ∈ schemas) (r : Restrictions)
    (shown : String → Bool) (kept : ColumnSet) :
    AgreeOn schemas (r.insert s.name (s.prune shown kept).columns).keeps
      fun n x => if n = s.name then shown x else r.keeps n x := by
  intro t ht x hx
  simp only [keeps, find?_insert]
  by_cases same : t.name = s.name
  · obtain rfl := catalog.coherent t ht s hs same
    simp [Schema.any_columns, hx]
  · simp [same]

theorem Remembers.insert (catalog : Catalog schemas) (h : r.Remembers base schemas)
    (hs : s ∈ schemas) (shown : String → Bool)
    (covers : r.Covers base (Column.partsAll s.columns) kept) :
    (r.insert s.name (s.prune shown kept).columns).Remembers base schemas := by
  intro t ht columns hf
  have grown {parts : List Schema} {k : ColumnSet} (hk : r.Covers base parts k) :
      (r.insert s.name (s.prune shown kept).columns).Covers base parts k :=
    hk.mono (fun _ hu => hu) fun _ _ => find?_eq_none_of_insert
  rw [find?_insert] at hf
  split at hf
  · next he =>
    obtain rfl := catalog.coherent t ht s hs he
    cases hf
    exact ⟨shown, kept, rfl, grown covers⟩
  · obtain ⟨shown', kept', he, covers'⟩ := h t ht columns hf
    exact ⟨shown', kept', he, grown covers'⟩

/-- What is remembered later: of more names, and some columns of each. -/
structure Grows (base : ColumnSet) (schemas : List Schema) (r r' : Restrictions) : Prop where
  remembers : r'.Remembers base schemas
  known : ∀ name, r'.find? name = none → r.find? name = none

theorem Grows.refl (remembers : r.Remembers base schemas) : Grows base schemas r r :=
  ⟨remembers, fun _ h => h⟩

theorem Grows.trans {r' r'' : Restrictions} (h : Grows base schemas r r')
    (k : Grows base schemas r' r'') : Grows base schemas r r'' :=
  ⟨k.remembers, fun name hn => h.known name (k.known name hn)⟩

theorem Grows.covers {r' : Restrictions} {parts : List Schema} (h : Grows base schemas r r')
    (hk : r.Covers base parts kept) : r'.Covers base parts kept :=
  hk.mono (fun _ ht => ht) fun t _ => h.known t.name

theorem Grows.insert (catalog : Catalog schemas) (remembers : r.Remembers base schemas)
    (hs : s ∈ schemas) (shown : String → Bool)
    (covers : r.Covers base (Column.partsAll s.columns) kept) :
    Grows base schemas r (r.insert s.name (s.prune shown kept).columns) :=
  ⟨remembers.insert catalog hs shown covers, fun _ => find?_eq_none_of_insert⟩

/-- Of a known name just the remembered columns are shown, whatever was shown before. -/
theorem replay_of_known (catalog : Catalog schemas) (hs : s ∈ schemas)
    (remembers : r.Remembers base schemas) (known : r.find? s.name ≠ none) (columns : List Column) :
    r.replay ⟨s.name, columns⟩ = ⟨s.prune (r.keeps s.name) (r.keepsOver base), r, true⟩ := by
  obtain ⟨found, hf⟩ := Option.ne_none_iff_exists'.mp known
  obtain ⟨shown, kept, rfl, covers⟩ := remembers s hs found hf
  have updated : r.updateColumns (s.prune shown kept) = s.prune shown (r.keepsOver base) :=
    updateColumns_prune catalog hs remembers covers
  simp only [Schema.prune] at updated hf
  simp only [replay, hf, updated, Restrictions.Update.mk.injEq, and_true]
  exact Schema.prune_congr (fun x hx => (keeps_of_find?_eq_prune hf x hx).symm) fun _ _ _ _ => rfl

/-- Of an unknown name all columns go on being shown; they may be remembered. -/
theorem replay_of_unknown (catalog : Catalog schemas) (hs : s ∈ schemas)
    (remembers : r.Remembers base schemas)
    (covers : r.Covers base (Column.partsAll s.columns) kept) (unknown : r.find? s.name = none)
    (shown : String → Bool) :
    (r.replay (s.prune shown kept)).schema = s.prune shown (r.keepsOver base) ∧
      ((r.replay (s.prune shown kept)).restrictions = r ∨
        (r.replay (s.prune shown kept)).restrictions =
          r.insert s.name (s.prune shown (r.keepsOver base)).columns) := by
  have hf : r.find? (s.prune shown kept).name = none := unknown
  simp only [replay, hf, updateColumns_prune catalog hs remembers covers]
  split
  · exact ⟨rfl, .inr rfl⟩
  · exact ⟨rfl, .inl rfl⟩

theorem retain_prune (names : List String) (s : Schema) :
    (s.prune shown kept).retain names = s.prune (fun x => shown x && decide (x ∈ names)) kept := by
  simp only [Schema.retain, Schema.prune, List.filter_map, List.filter_filter, Schema.mk.injEq,
    true_and]
  congr 1
  refine List.filter_congr fun c _ => ?_
  rw [Function.comp_apply, Column.restrict_name, Bool.and_comm]

/-- Narrowing to used columns, if there are any, leaves these and remembers them. -/
theorem narrow_prune (catalog : Catalog schemas) (hs : s ∈ schemas)
    (remembers : r.Remembers base schemas)
    (covers : r.Covers base (Column.partsAll s.columns) kept) (shown : String → Bool)
    {names : List String} (hn : names ≠ []) :
    r.narrow (s.prune shown kept) (some names) =
      let schema := s.prune (fun x => shown x && decide (x ∈ names)) (r.keepsOver base)
      ⟨schema, r.insert s.name schema.columns, true⟩ := by
  obtain ⟨n, rest, rfl⟩ := List.exists_cons_of_ne_nil hn
  simp only [narrow, retain_prune, updateColumns_prune catalog hs remembers covers,
    Schema.prune_name]

end Restrictions

end RecordFlow
