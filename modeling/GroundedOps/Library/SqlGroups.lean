import GroundedOps.Library.Groups
import GroundedOps.Library.SqlMeaning

/-!
# Statements that count

A statement that groups by columns and counts returns one row for every group of the selected
rows: the values of the columns and the size of the group. Without columns it returns the number
of the selected rows.
-/

namespace GroundedOps.Sql

variable {V P E K α : Type}

/-- The rows that satisfy the conditions of the statement. -/
def selected (engine : Engine V P E) (q : Select) (bound : Name → Option P)
    (rows : List (Record V)) : Except E (List (Record V)) := do
  let tests ← q.conds.mapM (bindCond engine q.table bound)
  filterRows engine tests rows

/-- What is returned is computed from the selected rows. -/
theorem eval_eq_ok {engine : Engine V P E} {columns : List Name} {q : Select}
    {bound : Name → Option P} {rows : List (Record V)} {outs : List (Output V)} :
    eval engine columns q bound rows = .ok outs ↔
      q.columns.all columns.contains = true ∧ ∃ members, selected engine q bound rows = .ok members ∧
        ∃ returned, results engine columns q members = .ok returned ∧
          ∃ arranged, q.order.elim (.ok returned) (fun o => engine.arrange o returned) =
              .ok arranged ∧
            q.limit.elim (.ok arranged) (fun n => engine.cut n arranged) = .ok outs := by
  unfold eval selected
  split_ifs with hcolumns
  · simp only [bind_eq_ok, hcolumns, true_and]
    constructor
    · rintro ⟨tests, htests, members, hmembers, h⟩
      exact ⟨members, ⟨tests, htests, hmembers⟩, h⟩
    · rintro ⟨members, ⟨tests, htests, hmembers⟩, h⟩
      exact ⟨tests, htests, members, hmembers, h⟩
  · simp [hcolumns]

theorem sublist_of_filterRows {engine : Engine V P E} {tests : List (Test V)}
    {rows members : List (Record V)} (h : filterRows engine tests rows = .ok members) :
    members.Sublist rows := by
  induction rows generalizing members with
  | nil =>
    cases h
    exact .slnil
  | cons row rows ih =>
    obtain ⟨passed, -, h⟩ := bind_eq_ok.mp h
    obtain ⟨rest, hrest, h⟩ := bind_eq_ok.mp h
    cases h
    cases passed with
    | true => exact (ih hrest).cons_cons row
    | false => exact (ih hrest).cons row

theorem sublist_of_selected {engine : Engine V P E} {q : Select} {bound : Name → Option P}
    {rows members : List (Record V)} (h : selected engine q bound rows = .ok members) :
    members.Sublist rows := by
  obtain ⟨tests, -, h⟩ := bind_eq_ok.mp h
  exact sublist_of_filterRows h

/-! ### More conditions -/

theorem passes_append (engine : Engine V P E) (row : Record V) (a b : List (Test V)) :
    passes engine row (a ++ b) =
      passes engine row a >>= fun passed => if passed then passes engine row b else .ok false := by
  induction a with
  | nil => rfl
  | cons test a ih =>
    rw [List.cons_append, passes, passes, ih]
    cases holds engine row test with
    | error e => rfl
    | ok held => cases held <;> rfl

theorem passes_append_eq_ok {engine : Engine V P E}
    {row : Record V} {a b : List (Test V)} {passed : Bool} :
    passes engine row (a ++ b) = .ok passed ↔ ∃ first, passes engine row a = .ok first ∧
      (if first then passes engine row b else .ok false) = .ok passed := by
  rw [passes_append, bind_eq_ok]

theorem passes_front {engine : Engine V P E}
    {row : Record V} {a b : List (Test V)}
    (h : passes engine row (a ++ b) = .ok true) : passes engine row a = .ok true := by
  obtain ⟨first, hfirst, h⟩ := passes_append_eq_ok.mp h
  cases first with
  | false => cases h
  | true => exact hfirst

/-- Conditions are refined in front of others, whether or not these are reached. -/
theorem passes_refined {engine : Engine V P E}
    {row : Record V} {a b d : List (Test V)} {first m m' passed : Bool}
    (ha : passes engine row a = .ok (first && m)) (hb : passes engine row b = .ok m')
    (h : (if first then passes engine row d else .ok false) = .ok passed) :
    passes engine row (a ++ b ++ d) = .ok (passed && (m && m')) := by
  have hboth : passes engine row (a ++ b) = .ok (first && m && m') := by
    refine passes_append_eq_ok.mpr ⟨_, ha, ?_⟩
    cases first && m with
    | false => rfl
    | true => exact hb
  refine passes_append_eq_ok.mpr ⟨_, hboth, ?_⟩
  rw [Bool.and_assoc]
  cases first with
  | false =>
    cases h
    rfl
  | true =>
    cases m && m' with
    | false => exact congrArg Except.ok (Bool.and_false passed).symm
    | true => exact h.trans (congrArg Except.ok (Bool.and_true passed).symm)

/-- Conditions that keep, of the rows that pass others, those with a property. -/
theorem filterRows_refine {engine : Engine V P E} {a b : List (Test V)} {p : Record V → Bool}
    {rows members : List (Record V)}
    (hb : ∀ row ∈ rows, ∀ passed, passes engine row a = .ok passed →
      passes engine row b = .ok (passed && p row))
    (h : filterRows engine a rows = .ok members) :
    filterRows engine b rows = .ok (members.filter p) := by
  induction rows generalizing members with
  | nil =>
    cases h
    rfl
  | cons row rows ih =>
    obtain ⟨hrow, hrows⟩ := List.forall_mem_cons.mp hb
    obtain ⟨passed, hpassed, h⟩ := bind_eq_ok.mp h
    obtain ⟨rest, hrest, h⟩ := bind_eq_ok.mp h
    cases h
    apply bind_eq_ok.mpr
    refine ⟨_, hrow passed hpassed, bind_eq_ok.mpr ⟨_, ih hrows hrest, ?_⟩⟩
    cases passed <;> cases hp : p row <;> simp [hp]

/-- A selected row passes the conditions. -/
theorem passes_of_mem {engine : Engine V P E} {tests : List (Test V)}
    {rows members : List (Record V)} (h : filterRows engine tests rows = .ok members)
    {row : Record V} (hrow : row ∈ members) : passes engine row tests = .ok true := by
  induction rows generalizing members with
  | nil =>
    cases h
    cases hrow
  | cons first rows ih =>
    obtain ⟨passed, hpassed, h⟩ := bind_eq_ok.mp h
    obtain ⟨rest, hrest, h⟩ := bind_eq_ok.mp h
    cases h
    cases passed with
    | true =>
      rcases List.mem_cons.mp hrow with rfl | hrow
      · exact hpassed
      · exact ih hrest hrow
    | false => exact ih hrest hrow

/-- The database takes two keys for the same exactly if they are. -/
def Encodes (engine : Engine V P E) (enc : K → List V) : Prop :=
  ∀ k k', ((enc k).length = (enc k').length ∧
    ((enc k).zip (enc k')).all (fun p => engine.same p.1 p.2) = true) ↔ k = k'

section Counts

variable [DecidableEq K] {engine : Engine V P E} {enc : K → List V} (h : Encodes engine enc)

include h

theorem insertGroup_enc (k : K) (x : α) (groups : List (K × List α)) :
    insertGroup engine.same (enc k) x (groups.map (Prod.map enc id)) =
      (addTo k x groups).map (Prod.map enc id) := by
  induction groups with
  | nil => rfl
  | cons g groups ih =>
    obtain ⟨k', rows⟩ := g
    simp only [List.map_cons, Prod.map_apply, id_eq, insertGroup, addTo]
    by_cases hk : k' = k
    · rw [if_pos ((h k' k).mpr hk), if_pos hk]
      rfl
    · rw [if_neg (mt (h k' k).mp hk), if_neg hk, ih]
      rfl

theorem foldl_insertGroup_enc (key : α → K) (members : List α) :
    (members.map fun x => (enc (key x), x)).foldl
        (fun groups p => insertGroup engine.same p.1 p.2 groups) [] =
      (groupsOf key members).map (Prod.map enc id) := by
  induction members using List.reverseRecOn with
  | nil => rfl
  | append_singleton members x ih =>
    have hstep := insertGroup_enc h (key x) x (groupsOf key members)
    rw [List.map_append, List.map_singleton, List.foldl_concat, ih, hstep, groupsOf, groupsOf,
      List.foldl_concat]

variable {names : List Name} {rows : List (Record V)} {key : Record V → K}
  (hkey : ∀ row ∈ rows, names.map row = enc (key row))

include hkey

theorem groupRows_columns :
    groupRows engine (names.map .column) rows = .ok ((groupsOf key rows).map Prod.snd) := by
  have hkeys : ∀ row : Record V,
      (names.map Expr.column).mapM (scalar engine row) = .ok (names.map row) := by
    intro row
    rw [List.mapM_map]
    exact mapM_ok_map fun _ _ => rfl
  have hkeyed : rows.mapM (fun row =>
      ((names.map Expr.column).mapM (scalar engine row)).map fun k => (k, row)) =
        .ok (rows.map fun row => (enc (key row), row)) := by
    apply mapM_ok_map
    intro row hrow
    rw [hkeys, hkey row hrow]
    rfl
  apply bind_eq_ok.mpr
  refine ⟨_, hkeyed, ?_⟩
  rw [foldl_insertGroup_enc h, List.map_map]
  rfl

omit h [DecidableEq K] in
/-- The row of a group. -/
theorem project_group {group : List (Record V)} {k : K} (hne : group ≠ [])
    (hgroup : ∀ row ∈ group, row ∈ rows ∧ key row = k) (label : Name) :
    project (overGroup engine group)
        (names.map (fun g => (g, .column g)) ++ [(label, .countAll)]) =
      .ok (names.zip (enc k) ++ [(label, engine.count group.length)]) := by
  obtain ⟨row, rest, rfl⟩ := List.exists_cons_of_ne_nil hne
  obtain ⟨hrow, hk⟩ := hgroup row List.mem_cons_self
  have hvalues : names.zip (enc k) = names.map fun g => (g, row g) := by
    rw [← hk, ← hkey row hrow, ← List.map_prod_left_eq_zip]
  have hcolumns : (names.map fun g => (g, Expr.column g)).mapM
      (fun p => (overGroup engine (row :: rest) p.2).map fun v => (p.1, v)) =
        .ok (names.map fun g => (g, row g)) := by
    rw [List.mapM_map]
    exact mapM_ok_map fun _ _ => rfl
  rw [project, List.mapM_append, hvalues]
  exact bind_eq_ok.mpr ⟨_, hcolumns, rfl⟩

/-- One row for every group. -/
theorem results_groups {columns : List Name} {q : Select} (hnames : names ≠ [])
    (hcolumns : ∀ g ∈ names, g ∈ columns) {label : Name}
    (hitems : q.items = names.map (fun g => (.column g, none)) ++ [(.countAll, some label)])
    (hgroupBy : q.groupBy = names) :
    results engine columns q rows = .ok ((groupsOf key rows).map fun g =>
      names.zip (enc g.1) ++ [(label, engine.count g.2.length)]) := by
  have houts : outputs columns q.items =
      names.map (fun g => (g, .column g)) ++ [(label, .countAll)] := by
    have hexpand : names.flatMap (fun g => expandItem columns (.column g, none)) =
        names.map fun g => (g, .column g) := by
      rw [List.map_eq_flatMap]
      rfl
    rw [hitems, outputs, List.flatMap_append, List.flatMap_map, hexpand]
    rfl
  have hkeys : names.mapM (keyExpr engine columns (outputs columns q.items)) =
      .ok (names.map .column) := by
    apply mapM_ok_map
    intro g hg
    rw [keyExpr, if_pos (List.contains_iff_mem.mpr (hcolumns g hg))]
  have hgroups := groups_groupsOf key rows
  rw [results, hgroupBy, if_neg hnames]
  apply bind_eq_ok.mpr
  refine ⟨_, hkeys, bind_eq_ok.mpr ⟨_, groupRows_columns h hkey, ?_⟩⟩
  rw [List.mapM_map, houts]
  apply mapM_ok_map
  intro g hg
  apply project_group hkey (hgroups.nonempty g hg)
  intro row hrow
  rw [hgroups.rows g hg] at hrow
  obtain ⟨hmem, hk⟩ := List.mem_filter.mp hrow
  exact ⟨hmem, of_decide_eq_true hk⟩

end Counts

/-- Without columns there is one row. -/
theorem results_total (engine : Engine V P E) {columns : List Name} {q : Select} {label : Name}
    (hitems : q.items = [(.countAll, some label)]) (hgroupBy : q.groupBy = [])
    (rows : List (Record V)) :
    results engine columns q rows = .ok [[(label, engine.count rows.length)]] := by
  have haggregates : q.aggregates ≠ [] := by
    rw [Select.aggregates, hitems]
    simp [Expr.aggregates]
  rw [results, hgroupBy, if_pos rfl, if_neg haggregates, hitems]
  rfl

end GroundedOps.Sql
