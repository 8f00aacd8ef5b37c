import RecordFlow.Proofs.Memory.Matching
import RecordFlow.Proofs.Memory.Shaped
import RecordFlow.Proofs.Pipeline.Usage
import RecordFlow.Proofs.Pruning.Lossless

/-! Runs with pruning beside runs without. A plan to rely on gives, step by step, as many records in
the same order, alike in the used columns: functions cannot tell them apart, so they go on in the
same way. -/

namespace RecordFlow.Memory

open Evaluation (plain plainStep plain_eq)
open Pipeline (exists_source hasInput_iff schema_mem)

variable {p : Pipeline} {src : Sources} {plan : Plan} {used kept : ColumnSet} {s i t : Step}

/-- The source that an operation reads. -/
def locator? : Operation → Option String
  | .readCsv locator | .readParquet locator => some locator
  | _ => none

/-- Every read of a pipeline finds a table. -/
def Sources.Registers (src : Sources) (p : Pipeline) : Prop :=
  ∀ s ∈ p.steps, ∀ locator, locator? s.operation = some locator →
    ∃ records, src.tables.lookup locator = some records

/-! ### Functions -/

theorem eq_of_silent (faithful : plan.Faithful p used kept) (catalog : Schema.Catalog p.schemas)
    (arena : Arena p.steps) (hs : s ∈ p.steps) (needed : plan.needs s.id = true)
    (silent : s.IsOpaque) (honest : s.Honest p) (hi : p.HasInput s i) {r r' : Record}
    (alike : i.schema.Alike used kept r r') : r = r' := by
  have flat : ∀ c ∈ i.schema.columns, c.nested = none := by
    unfold Step.Honest at honest
    rw [silent.2] at honest
    exact honest silent.1 i hi
  have all := faithful.unknown s hs needed silent i hi
  refine alike.eq_of_holds catalog faithful.within (schema_mem arena (hasInput_iff.mp hi).1) ?_
  intro u hu
  rcases Schema.mem_parts.mp hu with rfl | hu
  · exact all
  · obtain ⟨c, hc, hu⟩ := Column.mem_partsAll.mp hu
    obtain ⟨name, type, nullable, nested⟩ := c
    cases flat _ hc
    cases hu

/-- A function cannot tell alike records of an input apart. -/
theorem result_eq (faithful : plan.Faithful p used kept) (catalog : Schema.Catalog p.schemas)
    (arena : Arena p.steps) (hs : s ∈ p.steps) (needed : plan.needs s.id = true)
    (applies : s.operation.appliesFunction = true) (honest : s.Honest p) (hi : p.HasInput s i)
    {α : Type} {f : Record → α} (sees : ∀ sets, s.usage = .declared sets →
      ∀ r, f ((i.schema.restrict sets.lists).conform r) = f r) {r r' : Record}
    (alike : i.schema.Alike used kept r r') : f r = f r' := by
  cases hu : s.usage with
  | unknown => rw [eq_of_silent faithful catalog arena hs needed ⟨applies, hu⟩ honest hi alike]
  | declared sets =>
    have reads (n x : String) (h : sets.lists n x = true) : used n x = true :=
      faithful.declared s hs needed n x ⟨applies, sets, hu, h⟩
    rw [← sees sets hu r, ← sees sets hu r',
      alike.conform_restrict catalog (schema_mem arena (hasInput_iff.mp hi).1) reads]

/-- A function of the records of the source cannot tell them apart either. -/
theorem source_result_eq (faithful : plan.Faithful p used kept) (catalog : Schema.Catalog p.schemas)
    (arena : Arena p.steps) (hs : s ∈ p.steps) (needed : plan.needs s.id = true)
    (applies : s.operation.appliesFunction = true) (honest : s.Honest p) (hi : p.HasSource s i)
    {α : Type} {f : Record → α} (sees : ∀ see, s.operation.SeesOnly see → ∀ r, f (see r) = f r)
    {r r' : Record} (alike : i.schema.Alike used kept r r') : f r = f r' := by
  refine result_eq faithful catalog arena hs needed applies honest (.inl hi)
    (fun sets hu => ?_) alike
  unfold Step.Honest at honest
  rw [hu] at honest
  exact sees _ (honest.1 i hi)

theorem groupRecords_congr {R : Record → Record → Prop} {builder : Record → Aggregation}
    {layout : Aggregation.Layout} (builders : ∀ r r', R r r' → builder r = builder r')
    {rows rows' : List Record} (h : List.Forall₂ R rows rows') (groups : List Group) :
    groupRecords builder layout groups rows = groupRecords builder layout groups rows' := by
  induction h generalizing groups with
  | nil => rfl
  | cons first _ ih =>
    simp only [groupRecords, builders _ _ first]
    split
    · rfl
    · exact ih _

/-! ### Joins -/

/-- Records of the sources of a join, alike in what their record type uses. -/
def Matched (p : Pipeline) (used kept : ColumnSet) (j : Join) (r r' : Record) : Prop :=
  ∃ i ∈ p.steps, i.id ∈ j.sources ∧ i.schema.Alike used kept r r'

/-- The sides that are performed, beside all of them. -/
theorem sides_simulate {J : Join → Record → Record → Prop} {performed : Join → Bool}
    {value value' : StepId → Except Error (List Record)} {joins : List Join}
    (h : ∀ j ∈ joins, performed j = true → ∀ id ∈ j.sources,
      Simulates (List.Forall₂ (J j)) (value id) (value' id)) :
    Simulates (Sides J performed joins)
      ((joins.filter performed).mapM fun j => do return side j (← j.sources.mapM value))
      (joins.mapM fun j => do return side j (← j.sources.mapM value')) := by
  induction joins with
  | nil => exact .ok .nil
  | cons j rest ih =>
    have others := ih fun k hk => h k (List.mem_cons_of_mem _ hk)
    cases hp : performed j with
    | true =>
      have sources : Simulates (List.Forall₂ (List.Forall₂ (J j))) (j.sources.mapM value)
          (j.sources.mapM value') := by
        refine .mapM (R := fun id id' => id = id' ∧ id ∈ j.sources) ?_ ?_
        · intro id id' same
          obtain ⟨rfl, hid⟩ := same
          exact h j (List.mem_cons_self ..) hp id hid
        · exact List.forall₂_same.mpr fun id hid => ⟨rfl, hid⟩
      have first : Simulates
          (fun a b => ∃ sources sources', a = side j sources ∧ b = side j sources' ∧
            List.Forall₂ (List.Forall₂ (J j)) sources sources')
          (do return side j (← j.sources.mapM value))
          (do return side j (← j.sources.mapM value')) :=
        sources.bind fun rows rows' like => .ok ⟨rows, rows', rfl, rfl, like⟩
      rw [List.filter_cons_of_pos hp, List.mapM_cons, List.mapM_cons]
      refine first.bind ?_
      intro joined joined' made
      obtain ⟨rows, rows', rfl, rfl, like⟩ := made
      exact others.bind fun _ _ sides => .ok (.perform hp like sides)
    | false =>
      rw [List.filter_cons_of_neg (by simp [hp]), List.mapM_cons]
      intro sides' hok
      obtain ⟨first', hfirst', hok⟩ := exists_of_bind_ok hok
      obtain ⟨rows', -, hside⟩ := exists_of_bind_ok hfirst'
      cases hside
      obtain ⟨more', hmore', hok⟩ := exists_of_bind_ok hok
      cases hok
      obtain ⟨more, hmore, sides⟩ := others more' hmore'
      exact ⟨more, hmore, .leaveOut hp sides⟩

theorem fills_of_takes (faithful : plan.Faithful p used kept) (catalog : Schema.Catalog p.schemas)
    (arena : Arena p.steps) (hs : s ∈ p.steps) (needed : plan.needs s.id = true)
    (honest : s.Honest p) (takes : s.ListsTaken p) {source : StepId} {key : Record → Value}
    {joins : List Join} (hop : s.operation = .joinLeft source key joins) {performed : Join → Bool}
    (performs : ∀ j ∈ s.joins, ∀ x ∈ Resolution.filledColumns j, x ∈ s.schema.names →
      used s.schema.name x = true → performed j = true) {j : Join} (hj : j ∈ joins) :
    Fills used s.schema (Matched p used kept) performed j := by
  have applies : s.operation.appliesFunction = true := by rw [hop]; rfl
  have hjs : j ∈ s.joins := by rwa [Step.joins, hop]
  refine ⟨?_, ?_, fun c hc hu hfill => performs j hjs c.name hfill (Schema.mem_names hc) hu⟩
  · intro r r' matched
    obtain ⟨i, hi, hid, alike⟩ := matched
    refine result_eq faithful catalog arena hs needed applies honest (.inr ⟨hi, j, hjs, hid⟩)
      (fun sets hu => ?_) alike
    unfold Step.Honest at honest
    rw [hu] at honest
    exact honest.2 j hjs i hi hid
  · intro c hc _ hfield r r' matched
    obtain ⟨i, hi, hid, alike⟩ := matched
    cases hu : s.usage with
    | unknown =>
      have input : p.HasInput s i := .inr ⟨hi, j, hjs, hid⟩
      rw [eq_of_silent faithful catalog arena hs needed ⟨applies, hu⟩ honest input alike]
    | declared sets =>
      unfold Step.ListsTaken at takes
      rw [hu, hop] at takes
      have carries := takes.2 j hj i hi hid c hc hfield
      have himem := schema_mem arena hi
      have same := carries.conformIn_eq catalog faithful.within
        (fun n x h => faithful.declared s hs needed n x ⟨applies, sets, hu, h⟩)
        (fun u hu => by cases hu; exact himem) alike.inRecord
      rwa [Column.conform_eq, Column.conform_eq, Column.restrict_nested]

/-- What a join does not fill it takes over from its source. -/
theorem taken_eq (faithful : plan.Faithful p used kept) (catalog : Schema.Catalog p.schemas)
    (arena : Arena p.steps) (hs : s ∈ p.steps) (needed : plan.needs s.id = true)
    (honest : s.Honest p) (takes : s.ListsTaken p) {key : Record → Value} {joins : List Join}
    (hi : i ∈ p.steps) (hop : s.operation = .joinLeft i.id key joins) {r r' : Record}
    (alike : i.schema.Alike used kept r r') {d : Column} (hd : d ∈ s.schema.columns)
    (hu : used s.schema.name d.name = true)
    (unfilled : d.name ∉ joins.flatMap Resolution.filledColumns) :
    (d.restrict used).conform (r.value d.name) = (d.restrict used).conform (r'.value d.name) := by
  have applies : s.operation.appliesFunction = true := by rw [hop]; rfl
  have input : p.HasInput s i := .inl ⟨hi, by rw [Step.source?, hop]; rfl⟩
  have himem := schema_mem arena hi
  cases husage : s.usage with
  | unknown =>
    rw [eq_of_silent faithful catalog arena hs needed ⟨applies, husage⟩ honest input alike]
  | declared sets =>
    have reads (n x : String) (h : sets.lists n x = true) : used n x = true :=
      faithful.declared s hs needed n x ⟨applies, sets, husage, h⟩
    unfold Step.ListsTaken at takes
    rw [husage, hop] at takes
    rcases takes.1 i hi rfl with same | lists
    · have hschema : i.schema = s.schema := by rw [arena.derived hi, arena.derived hs, same]
      have seen := alike.same
      rw [hschema, Schema.restrict_eq_prune, Schema.conform_prune_eq_iff] at seen
      exact seen d hd hu
    · by_cases hx : d.name ∈ i.schema.names
      · obtain ⟨c, hc, hname⟩ := List.mem_map.mp hx
        have outside : ∀ j ∈ joins, c.name ∉ Resolution.filledColumns j := fun j hj hfill =>
          unfilled (List.mem_flatMap.mpr ⟨j, hj, hname ▸ hfill⟩)
        obtain ⟨listed, carries⟩ := lists c hc d hd hname.symm outside
        have hiname := Pipeline.schema_name arena hi
        have column := alike.column catalog faithful.within himem hc (reads _ _ (hiname ▸ listed))
        have taken := carries.conformIn_eq catalog faithful.within reads
          (fun u hu => catalog.closed i.schema himem u (Column.mem_partsAll_of_nested hc hu)) column
        rw [hname] at taken
        rwa [Column.conform_eq, Column.conform_eq, Column.restrict_nested]
      · obtain ⟨hr, hr'⟩ := alike.absent hx
        rw [hr, hr']

/-- A join of alike records, of which those are needed that fill used columns. -/
theorem join_simulates (faithful : plan.Faithful p used kept) (catalog : Schema.Catalog p.schemas)
    (arena : Arena p.steps) (hs : s ∈ p.steps) (needed : plan.needs s.id = true)
    (honest : s.Honest p) (takes : s.ListsTaken p)
    {value value' : StepId → Except Error (List Record)}
    (inputs : ∀ i, p.HasInput s i → plan.needs i.id = true →
      Simulates (List.Forall₂ (i.schema.Alike used kept)) (value i.id) (value' i.id))
    (hi : p.HasSource s i) {key : Record → Value} {joins : List Join}
    (hop : s.operation = .joinLeft i.id key joins) {left left' : List Record}
    (like : List.Forall₂ (i.schema.Alike used kept) left left') :
    Simulates (List.Forall₂ (s.schema.Alike used kept))
      (do
        let sides ← (plan.joinsOf s).mapM fun j => do return side j (← j.sources.mapM value)
        joinLeft left key sides (plan.schemaOf s))
      (do
        let sides ← joins.mapM fun j => do return side j (← j.sources.mapM value')
        joinLeft left' key sides s.schema) := by
  have applies : s.operation.appliesFunction = true := by rw [hop]; rfl
  have hjoins : s.joins = joins := by rw [Step.joins, hop]; rfl
  obtain ⟨shown, schemaOf, shows⟩ := faithful.shows s hs needed
  obtain ⟨performed, hperformed, performs⟩ := faithful.performs s hs needed
  -- Whatever a performed side joins is needed too.
  have sides : ∀ j ∈ joins, performed j = true → ∀ id ∈ j.sources,
      Simulates (List.Forall₂ (Matched p used kept j)) (value id) (value' id) := by
    intro j hj hp id hid rows' hrows'
    rw [← hjoins] at hj
    obtain ⟨k, hk, rfl⟩ := arena.input_mem hs
      (List.mem_append_right _ (List.mem_flatMap.mpr ⟨j, hj, hid⟩))
    have active : j ∈ plan.joinsOf s := by
      rw [hperformed]
      exact List.mem_filter.mpr ⟨hj, hp⟩
    obtain ⟨rows, hrows, likes⟩ := inputs k (.inr ⟨hk, j, hj, hid⟩)
      (faithful.joined s hs needed j active k.id hid) rows' hrows'
    exact ⟨rows, hrows, likes.imp fun r r' alike => ⟨k, hk, hid, alike⟩⟩
  have keys (r r' : Record) (alike : i.schema.Alike used kept r r') : key r = key r' := by
    refine source_result_eq faithful catalog arena hs needed applies honest hi ?_ alike
    rw [hop]
    exact fun _ sees => sees
  rw [hperformed, hjoins, schemaOf]
  refine (sides_simulate sides).bind fun sides sides' related => ?_
  exact joinLeft_simulates catalog faithful.within (schema_mem arena hs) shows related
    (fun j hj => fills_of_takes faithful catalog arena hs needed honest takes hop performs hj) keys
    (fun r r' alike d hd hu unfilled =>
      taken_eq faithful catalog arena hs needed honest takes hi.1 hop alike hd hu unfilled) like

/-! ### Steps -/

theorem table?_eq {context : StepContext} {locator : String} {table : List Record}
    (h : src.tables.lookup locator = some table) :
    src.table? context locator = some (table.map context.schema.conform) := by
  rw [Sources.table?, h, Option.map_some]

/-- Alike inputs give alike results. -/
theorem step_simulates (faithful : plan.Faithful p used kept) (catalog : Schema.Catalog p.schemas)
    (arena : Arena p.steps) (registers : src.Registers p) (hs : s ∈ p.steps)
    (needed : plan.needs s.id = true) (honest : s.Honest p) (takes : s.ListsTaken p)
    {value value' : StepId → Except Error (List Record)}
    (inputs : ∀ i, p.HasInput s i → plan.needs i.id = true →
      Simulates (List.Forall₂ (i.schema.Alike used kept)) (value i.id) (value' i.id)) :
    Simulates (List.Forall₂ (s.schema.Alike used kept)) (plainStep (engine src) plan value s)
      (plainStep (engine src) (Plan.unpruned t) value' s) := by
  have hmem := schema_mem arena hs
  obtain ⟨shown, schemaOf, shows⟩ := faithful.shows s hs needed
  have conform (r : Record) :
      s.schema.Alike used kept ((plan.schemaOf s).conform r) (s.schema.conform r) := by
    rw [schemaOf]
    exact Schema.alike_conform catalog faithful.within hmem shows rfl
  have conformAll {α : Type} (f : α → Record) (as : List α) :
      List.Forall₂ (s.schema.Alike used kept) (as.map fun a => (plan.schemaOf s).conform (f a))
        (as.map fun a => s.schema.conform (f a)) := by
    rw [List.forall₂_map_left_iff, List.forall₂_map_right_iff, List.forall₂_same]
    exact fun a _ => conform (f a)
  -- The step that the records come from.
  have origin {id : StepId} (hid : s.source? = some id) : ∃ i, p.HasSource s i ∧ i.id = id ∧
      Simulates (List.Forall₂ (i.schema.Alike used kept)) (value id) (value' id) := by
    obtain ⟨i, hi, rfl⟩ := exists_source arena hs hid
    exact ⟨i, hi, rfl, inputs i (.inl hi) (faithful.source s hs needed i hi)⟩
  have result {i : Step} (hi : p.HasSource s i) (applies : s.operation.appliesFunction = true)
      {α : Type} {f : Record → α} (sees : ∀ see, s.operation.SeesOnly see → ∀ r, f (see r) = f r)
      {r r' : Record} (alike : i.schema.Alike used kept r r') : f r = f r' :=
    source_result_eq faithful catalog arena hs needed applies honest hi sees alike
  have passed {i : Step} (hi : p.HasSource s i) (hp : s.operation.passed? = some i.id) :
      i.schema = s.schema := by
    rw [arena.derived hi.1, arena.derived hs, arena.passed_seed hs hi.1 hp]
  unfold plainStep
  cases hop : s.operation with
  | empty => exact .ok .nil
  | readCsv locator | readParquet locator =>
    obtain ⟨table, htable⟩ := registers s hs locator (by rw [hop]; rfl)
    simp only [engine, Sources.readCsv, Sources.readParquet, table?_eq htable]
    exact .ok (conformAll id table)
  | filter source predicate =>
    rw [hop] at result passed
    obtain ⟨i, hi, rfl, rows⟩ := origin (by rw [Step.source?, hop]; rfl)
    refine rows.bind fun left left' like => .ok ?_
    rw [← passed hi rfl]
    refine List.rel_filter (fun r r' alike => ?_) like
    exact Bool.eq_iff_iff.mp (result hi rfl (fun _ sees => sees) alike)
  | limit source count =>
    rw [hop] at passed
    obtain ⟨i, hi, rfl, rows⟩ := origin (by rw [Step.source?, hop]; rfl)
    refine rows.bind fun left left' like => .ok ?_
    rw [← passed hi rfl]
    exact List.forall₂_take count like
  | map source function =>
    rw [hop] at result
    obtain ⟨i, hi, rfl, rows⟩ := origin (by rw [Step.source?, hop]; rfl)
    refine rows.bind fun left left' like => .ok (List.rel_map (fun r r' alike => ?_) like)
    rw [result hi rfl (fun _ sees => sees) alike]
    exact conform _
  | flatMap source function =>
    rw [hop] at result
    obtain ⟨i, hi, rfl, rows⟩ := origin (by rw [Step.source?, hop]; rfl)
    refine rows.bind fun left left' like => .ok (List.rel_flatMap like fun r r' alike => ?_)
    rw [result hi rfl (fun _ sees => sees) alike]
    exact conformAll id (function r')
  | aggregate source builder layout =>
    rw [hop] at result
    obtain ⟨i, hi, rfl, rows⟩ := origin (by rw [Step.source?, hop]; rfl)
    refine rows.bind fun left left' like => ?_
    have groups : groupRecords builder layout (initialGroups layout) left =
        groupRecords builder layout (initialGroups layout) left' :=
      groupRecords_congr (fun r r' alike => result hi rfl (fun _ sees => sees) alike) like _
    show Simulates _ (aggregate left builder layout _) (aggregate left' builder layout _)
    rw [aggregate, groups]
    refine Simulates.bind (R := Eq) (fun groups hg => ⟨groups, hg, rfl⟩) ?_
    rintro groups _ rfl
    exact .ok (conformAll (Group.record layout) groups)
  | joinLeft source key joins =>
    obtain ⟨i, hi, rfl, rows⟩ := origin (by rw [Step.source?, hop]; rfl)
    have all : (Plan.unpruned t).joinsOf s = joins := by
      show s.joins = joins
      rw [Step.joins, hop]
      rfl
    refine rows.bind fun left left' like => ?_
    rw [all]
    exact join_simulates faithful catalog arena hs needed honest takes inputs hi hop like

/-! ### Runs -/

/-- From the inputs up, a step that is needed gives alike records in both runs. -/
theorem run_simulates (faithful : plan.Faithful p used kept) (catalog : Schema.Catalog p.schemas)
    (arena : Arena p.steps) (registers : src.Registers p) (honest : ∀ s ∈ p.steps, s.Honest p)
    (takes : ∀ s ∈ p.steps, s.ListsTaken p) (hs : s ∈ p.steps) (needed : plan.needs s.id = true) :
    Simulates (List.Forall₂ (s.schema.Alike used kept)) (plain (engine src) plan p.steps s.id)
      (plain (engine src) (Plan.unpruned t) p.steps s.id) := by
  obtain ⟨n, hn⟩ : ∃ n, s.id.number = n := ⟨_, rfl⟩
  induction n using Nat.strongRecOn generalizing s with
  | ind n ih =>
    rw [plain_eq _ _ arena hs, plain_eq _ _ arena hs]
    refine step_simulates faithful catalog arena registers hs needed (honest s hs) (takes s hs)
      fun i hi needs => ?_
    obtain ⟨hmem, hid⟩ := hasInput_iff.mp hi
    exact ih i.id.number (hn ▸ arena.input_below hs hmem hid) hmem needs rfl

end RecordFlow.Memory
