import GroundedOps.Library.SqlGroups
import GroundedOps.McpServer.VisibleColumns
import GroundedOps.Python.JsonDecoder

/-!
# Counting by groups

The counts an aggregation shows are those of the largest groups of the rows it selects, under
different values of the columns, the largest first. The same call without columns counts all
these rows, so the counts shown never exceed it, and they add up to it exactly if no group was
cut off.
-/

namespace GroundedOps.McpServer

open Python Security Sql Db Program

variable {F D N : Type}

def textCell : Option Text → Cell F D N
  | none => .value .null
  | some s => .value (.str s)

def cellText : Cell F D N → Option Text
  | .value (.str s) => some s
  | _ => none

/-- What a row of a result was counted. -/
def countOf (out : Output (Cell F D N)) : Option ℤ :=
  match out.lookup aggValue with
  | some (.value (.int n)) => some n
  | _ => none

/-- The database groups texts by equality, with one group for the rows without one; it counts,
orders by the counts and cuts. A limit has 64 bits. -/
structure Counts (backend : Backend F D N) : Prop where
  count : ∀ n, backend.engine.count n = .value (.int n)
  same : ∀ s t, backend.engine.same (textCell s) (textCell t) = decide (s = t)
  arrange : ∀ outs, (∀ out ∈ outs, (countOf out).isSome) →
    ∃ outs', backend.engine.arrange aggOrder outs = .ok outs' ∧ outs'.Perm outs ∧
      outs'.Pairwise fun out out' => ∀ n ∈ countOf out, ∀ n' ∈ countOf out', n' ≤ n
  cut : ∀ (n : ℕ) outs, n < 2 ^ 63 → backend.engine.cut (str n) outs = .ok (outs.take n)

def count : Text := "count".toList

/-- The values a row has in these columns. -/
def keyOf (groupBy : List Text) (row : Record (Cell F D N)) : List (Option Text) :=
  groupBy.map fun g => cellText (row g)

/-- A group as it is shown. -/
def groupJson (groupBy : List Text) (g : List (Option Text) × ℕ) : Json F :=
  .obj (groupBy.zip (g.1.map optText) ++ [(aggValue, .int g.2)])

/-- The rows that satisfy the conditions of a call. -/
def Call.selected (backend : Backend F D N) (cal : Calendar F D N) (s : State F D N)
    (call : Call F) : Except Exn (List (Record (Cell F D N))) := do
  let st ← call.statement cal
  Sql.selected backend.engine call.shape.select st.params.get? (s.rows call.shape.select.table)

/-! ### The columns to group by hold texts -/

theorem groupBy_string : ∀ e ∈ allowed, ∀ g ∈ e.2.groupBy,
    ∃ t ∈ models, t.1 = e.1 ∧ ∃ col ∈ t.2.columns, col.name = g ∧ col.type = .string := by
  decide +kernel

theorem aggValue_notMem : ∀ e ∈ allowed, aggValue ∉ e.2.groupBy := by decide +kernel

theorem columns_subset : ∀ e ∈ allowed, ∀ c ∈ e.2.columns, c ∈ columnsOf e.1 := by
  decide +kernel

/-- The columns of an admitted statement are there. -/
theorem Admitted.contained {shape : Shape} (h : Admitted shape) :
    shape.select.columns.all (columnsOf shape.select.table).contains = true := by
  obtain ⟨p, hp, hread, -⟩ := h.table
  have hmem := policy_validates shape.select.table
  rw [hp] at hmem
  rw [List.all_eq_true]
  intro c hc
  exact List.contains_iff_mem.mpr (columns_subset _ hmem c (hread c hc))

theorem textCell_cellText {c : Cell F D N} {col : Column} (h : Admits col c)
    (hcol : col.type = .string) : textCell (cellText c) = c := by
  unfold Admits at h
  split at h
  · rfl
  · rfl
  · rw [hcol] at h
    cases h.1
  · rw [hcol] at h
    cases h
  · rw [hcol] at h
    cases h
  · cases h

theorem encodes_texts {backend : Backend F D N} (laws : Counts backend) :
    Encodes backend.engine fun k : List (Option Text) => k.map textCell := by
  intro k k'
  constructor
  · intro h
    induction k generalizing k' with
    | nil => simpa [eq_comm] using h.1
    | cons s k ih =>
      cases k' with
      | nil => simp at h
      | cons s' k' =>
        simp only [List.map_cons, List.length_cons, Nat.add_right_cancel_iff, List.zip_cons_cons,
          List.all_cons, Bool.and_eq_true, laws.same, decide_eq_true_eq] at h
        obtain ⟨hlength, rfl, hall⟩ := h
        rw [ih k' ⟨hlength, hall⟩]
  · rintro rfl
    refine ⟨rfl, ?_⟩
    induction k with
    | nil => rfl
    | cons s k ih =>
      simp only [List.map_cons, List.zip_cons_cons, List.all_cons, laws.same, decide_true,
        Bool.true_and]
      exact ih

theorem map_eq_keyOf {s : State F D N} {table : Text} {p : TablePolicy}
    (hp : policy table = .ok p) {groupBy : List Text} (hgroupBy : ∀ g ∈ groupBy, g ∈ p.groupBy)
    {row : Record (Cell F D N)} (hrow : row ∈ s.rows table) :
    groupBy.map row = (keyOf groupBy row).map textCell := by
  have hmem := policy_validates table
  rw [hp] at hmem
  rw [keyOf, List.map_map]
  apply List.map_congr_left
  intro g hg
  obtain ⟨t, ht, htable, col, hcol, rfl, hstring⟩ := groupBy_string _ hmem g (hgroupBy g hg)
  obtain rfl : t.1 = table := htable
  exact (textCell_cellText (s.admits t ht row hrow col hcol) hstring).symm

/-! ### Runs that return -/

section Runs

variable {backend : Backend F D N} {py : Interpreter F} {cal : Calendar F D N}

theorem query_eq_ok {db : List (Statement F D) → Except Exn (List (Row F D N))}
    {statement : Except Exn (Statement F D)}
    {convert : List (Row F D N) → Except Exn (Json F)} {log log' : List (Statement F D)}
    {j : Json F} : query db statement convert log = .ok j log' ↔
      ∃ st, statement = .ok st ∧ ∃ rows, db (log ++ [st]) = .ok rows ∧ convert rows = .ok j ∧
        log' = log ++ [st] := by
  cases statement with
  | error e =>
    constructor
    · intro h
      cases h
    · rintro ⟨st, hst, -⟩
      cases hst
  | ok st =>
    have hstatement : (ofExcept (.ok st) : AnalyticsM F D (Statement F D)) log = .ok st log := rfl
    rw [query, run_bind_ok hstatement]
    cases hdb : db (log ++ [st]) with
    | error e =>
      have hexecute : execute db st log = .error e (log ++ [st]) := by simp only [execute, hdb]
      rw [run_bind_error hexecute]
      constructor
      · intro h
        cases h
      · rintro ⟨_, hst, rows, hrows, -⟩
        cases hst
        rw [hdb] at hrows
        cases hrows
    | ok rows =>
      have hexecute : execute db st log = .ok rows (log ++ [st]) := by simp only [execute, hdb]
      rw [run_bind_ok hexecute]
      constructor
      · intro h
        cases hconvert : convert rows with
        | error e =>
          rw [hconvert] at h
          cases h
        | ok j' =>
          rw [hconvert] at h
          cases h
          exact ⟨st, rfl, rows, hdb, hconvert, rfl⟩
      · rintro ⟨_, hst, rows', hrows, hconvert, rfl⟩
        cases hst
        cases hdb.symm.trans hrows
        rw [hconvert]
        rfl

theorem answer_eq_ok {s : State F D N} {q : Select} {st : Statement F D}
    {rows : List (Row F D N)} : backend.answer s q st = .ok rows ↔
      st.sql = q.render ∧ ∃ outs, eval backend.engine (columnsOf q.table) q st.params.get?
        (s.rows q.table) = .ok outs ∧ outs.mapM backend.mapping = .ok rows := by
  unfold Backend.answer
  split_ifs with hsql
  · rw [bind_eq_ok]
    exact ⟨fun h => ⟨hsql, h⟩, fun h => h.2⟩
  · exact ⟨nofun, fun h => absurd h.1 hsql⟩

/-- A call that counts returns the rows of its result. -/
theorem runOn_aggregate_eq_ok {s : State F D N} {table aggFn : Text} {groupBy : List Text}
    {column : Option Text} {filters : Option (Dict Text (Json F))} {start stop : Option Text}
    {cap : ℤ} {log log' : List (Statement F D)} {j : Json F} :
    (Call.aggregate table groupBy aggFn column filters start stop cap).runOn backend py cal s log =
        .ok j log' ↔
      ∃ st, aggregateStatement cal table groupBy aggFn column filters start stop cap = .ok st ∧
        ∃ rows, backend.answer s (Call.aggregate table groupBy aggFn column filters start stop
            cap).shape.select st = .ok rows ∧
          .arr (rows.map (rowToJson cal)) = j ∧ log' = log ++ [st] := by
  change query _ _ _ log = _ ↔ _
  rw [query_eq_ok]
  simp only [backend.session_append, Except.ok.injEq]

end Runs

/-! ### The checks of a call that counts -/

theorem require_eq_ok {ok : Bool} {message : Text} {u : Unit} :
    require ok message = .ok u ↔ ok = true := by
  cases ok with
  | true => exact iff_of_true rfl rfl
  | false => exact iff_of_false nofun nofun

theorem checkAll_eq_ok {admitted : List Text} {message : Text → Text} {names : List Text}
    {u : Unit} : checkAll admitted message names = .ok u ↔ ∀ n ∈ names, n ∈ admitted := by
  induction names with
  | nil => simp [checkAll]
  | cons name names ih =>
    unfold checkAll
    split_ifs with hname
    · simp [ih, hname]
    · simp [hname]

theorem validateGroupBy_eq_ok {table : Text} {p : TablePolicy} (hp : policy table = .ok p)
    {groupBy : List Text} :
    (∃ a, validateGroupBy table groupBy = .ok a) ↔ ∀ g ∈ groupBy, g ∈ p.groupBy := by
  simp only [validateGroupBy, hp, ok_bind]
  constructor
  · rintro ⟨_, h⟩
    obtain ⟨_, hcheck, -⟩ := bind_eq_ok.mp h
    exact checkAll_eq_ok.mp hcheck
  · intro h
    exact ⟨groupBy, bind_eq_ok.mpr ⟨(), checkAll_eq_ok.mpr h, rfl⟩⟩

theorem validateFilterKeys_eq_ok {table : Text} {p : TablePolicy} (hp : policy table = .ok p)
    {keys : List Text} {u : Unit} :
    validateFilterKeys table keys = .ok u ↔ ∀ k ∈ keys, k ∈ p.filterColumns := by
  simp only [validateFilterKeys, hp, ok_bind, checkAll_eq_ok]

/-- A call that counts passes its checks exactly if its identifiers are listed and its bounds are
dates, and then it binds the values of its filters and its bounds. -/
theorem countStatement_eq_ok {cal : Calendar F D N} {table : Text} {groupBy : List Text}
    {column : Option Text} {filters : Option (Dict Text (Json F))} {start stop : Option Text}
    {cap : ℤ} {st : Statement F D} :
    aggregateStatement cal table groupBy count column filters start stop cap = .ok st ↔
      groupBy.length ≤ maxGroupBy ∧ (filters.getD .empty).items.length ≤ maxFilters ∧
        ∃ p, policy table = .ok p ∧ (∀ g ∈ groupBy, g ∈ p.groupBy) ∧
          (∀ k ∈ (filters.getD .empty).keys, k ∈ p.filterColumns) ∧
            ∃ c, timeClause cal table start stop (filterClauses (filters.getD .empty)) = .ok c ∧
              st = ⟨aggregateSql table groupBy "count(*)".toList c.conds cap, c.params⟩ := by
  constructor
  · intro h
    obtain ⟨_, hcolumns, h⟩ := bind_eq_ok.mp h
    obtain ⟨_, hmax, h⟩ := bind_eq_ok.mp h
    obtain ⟨p, hp, h⟩ := bind_eq_ok.mp h
    obtain ⟨_, -, h⟩ := bind_eq_ok.mp h
    obtain ⟨_, hgroupBy, h⟩ := bind_eq_ok.mp h
    obtain ⟨_, hkeys, h⟩ := bind_eq_ok.mp h
    obtain ⟨_, hexpr, h⟩ := bind_eq_ok.mp h
    obtain ⟨c, hc, h⟩ := bind_eq_ok.mp h
    cases hexpr
    cases h
    exact ⟨of_decide_eq_true (require_eq_ok.mp hcolumns), of_decide_eq_true (require_eq_ok.mp hmax),
      p, hp, (validateGroupBy_eq_ok hp).mp ⟨_, hgroupBy⟩, (validateFilterKeys_eq_ok hp).mp hkeys,
      c, hc, rfl⟩
  · rintro ⟨hcolumns, hmax, p, hp, hgroupBy, hkeys, c, hc, rfl⟩
    obtain ⟨_, hgroupBy⟩ := (validateGroupBy_eq_ok hp).mpr hgroupBy
    apply bind_eq_ok.mpr ⟨(), require_eq_ok.mpr (decide_eq_true hcolumns), _⟩
    apply bind_eq_ok.mpr ⟨(), require_eq_ok.mpr (decide_eq_true hmax), _⟩
    apply bind_eq_ok.mpr ⟨p, hp, _⟩
    apply bind_eq_ok.mpr ⟨count, rfl, _⟩
    apply bind_eq_ok.mpr ⟨_, hgroupBy, _⟩
    apply bind_eq_ok.mpr ⟨(), (validateFilterKeys_eq_ok hp).mpr hkeys, _⟩
    apply bind_eq_ok.mpr ⟨"count(*)".toList, rfl, _⟩
    exact bind_eq_ok.mpr ⟨c, hc, rfl⟩

/-! ### What is shown -/

section Shown

variable {backend : Backend F D N} {cal : Calendar F D N} {s : State F D N}
  {table : Text} {groupBy : List Text} {column : Option Text}
  {filters : Option (Dict Text (Json F))} {start stop : Option Text} {cap : ℕ}
  {st : Statement F D}

theorem selected_eq_ok {call : Call F} {members : List (Record (Cell F D N))}
    (hst : call.statement cal = .ok st) : call.selected backend cal s = .ok members ↔
      Sql.selected backend.engine call.shape.select st.params.get?
        (s.rows call.shape.select.table) = .ok members := by
  rw [Call.selected, hst, ok_bind]

theorem jsonable_textCell (t : Option Text) : jsonable cal (textCell t) = optText t := by
  cases t <;> rfl

/-- The labels of a row are the columns, and behind them that of the count. -/
theorem rowToJson_group {row : Row F D N} {k : List (Option Text)} {n : ℕ}
    (h : row.items = groupBy.zip (k.map textCell) ++ [(aggValue, .value (.int n))]) :
    rowToJson cal row = groupJson groupBy (k, n) := by
  have hzip : (groupBy.zip (k.map textCell)).map (fun p => (p.1, jsonable cal p.2)) =
      groupBy.zip (k.map optText) := by
    rw [List.zip_map_right, List.zip_map_right, List.map_map]
    apply List.map_congr_left
    rintro ⟨g, t⟩ _
    exact congrArg (Prod.mk g) (jsonable_textCell t)
  rw [rowToJson, h, List.map_append, hzip]
  rfl

theorem countOf_group {k : List (Option Text)} (hlabel : aggValue ∉ groupBy) (n : ℕ) :
    countOf (groupBy.zip (k.map textCell) ++ [(aggValue, (.value (.int n) : Cell F D N))]) =
      some (n : ℤ) := by
  have hnone : (groupBy.zip (k.map (textCell (F := F) (D := D) (N := N)))).lookup aggValue =
      none := by
    rw [List.lookup_eq_none_iff]
    intro p hp
    rw [bne_iff_ne]
    intro heq
    exact hlabel (heq ▸ (List.of_mem_zip hp).1)
  rw [countOf, List.lookup_append, hnone]
  simp

/-- A row of the result has every label once. -/
theorem nodup_labels (hnodup : groupBy.Nodup) (hlabel : aggValue ∉ groupBy)
    {k : List (Option Text)} (hlength : k.length = groupBy.length) (v : Cell F D N) :
    ((groupBy.zip (k.map textCell) ++ [(aggValue, v)]).map Prod.fst).Nodup := by
  have hzip : (groupBy.zip (k.map (textCell (F := F) (D := D) (N := N)))).map Prod.fst =
      groupBy := by
    apply List.map_fst_zip
    rw [List.length_map, hlength]
  rw [List.map_append, hzip]
  exact hnodup.append (List.nodup_singleton _) (List.disjoint_singleton.mpr hlabel)

theorem strInt_natCast (n : ℕ) : strInt n = str n := by
  rw [strInt, if_neg (by omega), Int.natAbs_natCast]

variable (laws : Counts backend)
include laws

/-- The rows of a result that groups are the largest groups of the selected rows. -/
theorem answer_groups (hnodup : groupBy.Nodup) (hne : groupBy ≠ []) (hcap : cap < 2 ^ 63)
    (hst : aggregateStatement cal table groupBy count column filters start stop cap = .ok st)
    {rows : List (Row F D N)}
    (hrows : backend.answer s (Call.aggregate table groupBy count column filters start stop
      cap).shape.select st = .ok rows) :
    ∃ members top, (Call.aggregate table groupBy count column filters start stop cap).selected
        backend cal s = .ok members ∧ members.Sublist (s.rows table) ∧
      TopGroups (keyOf groupBy) members cap top ∧
        rows.map (rowToJson cal) = top.map (groupJson groupBy) := by
  obtain ⟨-, -, p, hp, hgroupBy, -⟩ := countStatement_eq_ok.mp hst
  have hmem := policy_validates table
  rw [hp] at hmem
  have hlabel : aggValue ∉ groupBy := fun h => aggValue_notMem _ hmem (hgroupBy _ h)
  obtain ⟨-, outs, heval, hmapping⟩ := answer_eq_ok.mp hrows
  obtain ⟨hcolumns, members, hmembers, returned, hreturned, arranged, harranged, houts⟩ :=
    eval_eq_ok.mp heval
  have hsub : members.Sublist (s.rows table) := sublist_of_selected hmembers
  have hkey : ∀ row ∈ members, groupBy.map row = (keyOf groupBy row).map textCell :=
    fun row hrow => map_eq_keyOf hp hgroupBy (hsub.subset hrow)
  have hcols : ∀ g ∈ groupBy, g ∈ columnsOf table := by
    intro g hg
    apply List.contains_iff_mem.mp
    apply List.all_eq_true.mp hcolumns
    apply List.mem_append_left
    exact List.mem_flatMap.mpr ⟨(.column g, none),
      List.mem_append_left _ (List.mem_map_of_mem hg), List.mem_singleton_self g⟩
  -- One row for every group, then ordered by the counts and cut.
  have hgroups := groups_groupsOf (keyOf groupBy) members
  have hresult := results_groups (encodes_texts laws) hkey hne hcols
    (q := (Call.aggregate table groupBy count column filters start stop cap).shape.select) rfl rfl
  cases hreturned.symm.trans hresult
  obtain ⟨outs', harrange, hperm, hsorted⟩ := laws.arrange ((groupsOf (keyOf groupBy) members).map
      fun g => groupBy.zip (g.1.map textCell) ++
        [(aggValue, backend.engine.count g.2.length)]) (by
    intro out hout
    obtain ⟨g, -, rfl⟩ := List.mem_map.mp hout
    rw [laws.count, countOf_group hlabel]
    rfl)
  cases harranged.symm.trans harrange
  obtain ⟨ordered, rfl, hordered⟩ := exists_perm_of_perm_map hperm
  have hcut := laws.cut cap (ordered.map fun g => groupBy.zip (g.1.map textCell) ++
    [(aggValue, backend.engine.count g.2.length)]) hcap
  rw [← strInt_natCast] at hcut
  cases houts.symm.trans hcut
  rw [List.pairwise_map] at hsorted
  have htop := hgroups.top (n := cap) hordered (hsorted.imp fun {g g'} h => by
    have hle := h g.2.length (by rw [laws.count, countOf_group hlabel]; rfl) g'.2.length
      (by rw [laws.count, countOf_group hlabel]; rfl)
    omega)
  have hstatement : (Call.aggregate table groupBy count column filters start stop cap).statement
      cal = .ok st := hst
  refine ⟨members, _, (selected_eq_ok hstatement).mpr hmembers, hsub, htop, ?_⟩
  rw [← List.map_take, List.mapM_map, mapM_eq_ok] at hmapping
  have hshown : ∀ g ∈ ordered.take cap, g.1.length = groupBy.length := by
    intro g hg
    have hold := hordered.subset (List.mem_of_mem_take hg)
    obtain ⟨row, hrow⟩ := List.exists_mem_of_ne_nil _ (hgroups.nonempty g hold)
    rw [hgroups.rows g hold] at hrow
    rw [← of_decide_eq_true (List.mem_filter.mp hrow).2, keyOf, List.length_map]
  rw [List.map_map]
  apply map_eq_map_of_forall₂
  apply ((List.forall₂_and_left _ _).mpr ⟨hshown, hmapping⟩).imp
  rintro g row ⟨hlength, hrow⟩
  obtain ⟨row', hrow', hitems⟩ := backend.mapping_nodup _ (nodup_labels hnodup hlabel hlength _)
  cases hrow.symm.trans hrow'
  rw [laws.count] at hitems
  exact rowToJson_group hitems

/-- Without columns the selected rows are counted. -/
theorem answer_total {members : List (Record (Cell F D N))} (hpos : 1 ≤ cap)
    (hcap : cap < 2 ^ 63)
    (hst : aggregateStatement cal table [] count column filters start stop cap = .ok st)
    (hmembers : (Call.aggregate table [] count column filters start stop cap).selected backend cal
      s = .ok members) :
    ∃ rows, backend.answer s (Call.aggregate table [] count column filters start stop
        cap).shape.select st = .ok rows ∧
      rows.map (rowToJson cal) = [.obj [(aggValue, .int members.length)]] := by
  have hstatement : (Call.aggregate table [] count column filters start stop cap).statement cal =
      .ok st := hst
  have hissued := statement_validates cal (Call.aggregate table [] count column filters start stop
    cap)
  rw [hstatement] at hissued
  have hreturned : results backend.engine (columnsOf table) (Call.aggregate table [] count column
      filters start stop cap).shape.select members =
        .ok [[(aggValue, backend.engine.count members.length)]] :=
    results_total backend.engine rfl rfl members
  rw [laws.count] at hreturned
  obtain ⟨outs, harrange, hperm, -⟩ := laws.arrange
    [[(aggValue, .value (.int members.length))]] (by simp [countOf])
  obtain rfl := List.perm_singleton.mp hperm
  have hcut := laws.cut cap [[(aggValue, .value (.int members.length))]] hcap
  rw [← strInt_natCast, List.take_of_length_le hpos] at hcut
  obtain ⟨row, hrow, hitems⟩ := backend.mapping_nodup
    [(aggValue, (.value (.int members.length) : Cell F D N))] (List.nodup_singleton _)
  refine ⟨[row], answer_eq_ok.mpr ⟨hissued.sql, _, eval_eq_ok.mpr ⟨hissued.admitted.contained, members,
    (selected_eq_ok hstatement).mp hmembers, _, hreturned, _, harrange, hcut⟩, ?_⟩, ?_⟩
  · rw [List.mapM_cons, hrow]
    rfl
  · rw [List.map_singleton, rowToJson, hitems]
    rfl

/-- The counts that are shown are those of the largest groups, the largest first. Without columns
the same call counts all their rows; the counts add up to this exactly if no group is cut off. -/
theorem counts_shown {py : Interpreter F} (hnodup : groupBy.Nodup) (hne : groupBy ≠ [])
    (hpos : 1 ≤ cap) (hcap : cap < 2 ^ 63) {log log' : List (Statement F D)} {j : Json F}
    (hrun : (Call.aggregate table groupBy count column filters start stop cap).runOn backend py cal
      s log = .ok j log') :
    ∃ members top, (Call.aggregate table groupBy count column filters start stop cap).selected
        backend cal s = .ok members ∧ members.Sublist (s.rows table) ∧
      TopGroups (keyOf groupBy) members cap top ∧ j = .arr (top.map (groupJson groupBy)) ∧
      (∃ log'', (Call.aggregate table [] count column filters start stop cap).runOn backend py cal
        s log = .ok (.arr [.obj [(aggValue, .int members.length)]]) log'') ∧
      (top.map Prod.snd).sum ≤ members.length ∧
      ((top.map Prod.snd).sum = members.length ↔
        ∀ row ∈ members, keyOf groupBy row ∈ top.map Prod.fst) := by
  obtain ⟨st, hst, rows, hrows, rfl, rfl⟩ := runOn_aggregate_eq_ok.mp hrun
  obtain ⟨members, top, hmembers, hsub, htop, hjson⟩ :=
    answer_groups laws hnodup hne hcap hst hrows
  refine ⟨members, top, hmembers, hsub, htop, by rw [hjson], ?_, htop.sum.1, htop.sum.2⟩
  obtain ⟨-, hmax, p, hp, -, hkeys, c, hc, rfl⟩ := countStatement_eq_ok.mp hst
  have hst' : aggregateStatement cal table [] count column filters start stop cap =
      .ok ⟨aggregateSql table [] "count(*)".toList c.conds cap, c.params⟩ :=
    countStatement_eq_ok.mpr ⟨Nat.zero_le _, hmax, p, hp, nofun, hkeys, c, hc, rfl⟩
  have hmembers' : (Call.aggregate table [] count column filters start stop cap).selected backend
      cal s = .ok members := by
    rw [Call.selected, Call.statement, hst', ok_bind]
    rw [Call.selected, Call.statement, hst, ok_bind] at hmembers
    exact hmembers
  obtain ⟨rows', hrows', hjson'⟩ := answer_total laws hpos hcap hst' hmembers'
  exact ⟨_, runOn_aggregate_eq_ok.mpr ⟨_, hst', rows', hrows', by rw [hjson'], rfl⟩⟩

end Shown

/-! ### A database that counts -/

/-- It stores texts and counts, and compares and orders these. -/
def countEngine (D : Type) : Engine (Cell Unit D Unit) (Param Unit D) Exn where
  undefined := .other "ProgrammingError".toList
  bindValue _ _
    | .value (.str s) => if nul ∈ s then .error .valueError else .ok (.value (.str s))
    | .value v => .ok (.value v)
    | .datetime d => .ok (.datetime d)
  isNull
    | .value .null => true
    | _ => false
  compare op
    | .value (.str s), .value (.str t) =>
      if op = ['='] then .ok (s = t) else .error .typeError
    | .value .null, _ => .ok false
    | _, _ => .error .typeError
  same
    | .value (.str s), .value (.str t) => s = t
    | .value .null, .value .null => true
    | _, _ => false
  count n := .value (.int n)
  aggregate _ _ := .error .typeError
  median _ := .error .typeError
  minutes _ _ := .error .typeError
  truncate _ _ := .error .typeError
  arrange _ outs :=
    .ok (outs.insertionSort fun a b => (countOf b).getD 0 ≤ (countOf a).getD 0)
  cut limit outs := (int limit).map fun n => outs.take n.toNat

theorem countEngine_bind {D : Type} {table column s : Text} (hs : nul ∉ s) :
    (countEngine D).bindValue table column (.value (.str s)) = .ok (.value (.str s)) := if_neg hs

def countBackend (D : Type) : Backend Unit D Unit where
  engine := countEngine D
  mapping out := .ok (.ofList out)
  bind_text _ _ _ _ _ s hs := by
    refine ⟨.value (.str s), countEngine_bind hs, ?_⟩
    simp [countEngine]
  bind_nul table column s hs := ⟨.valueError, if_pos hs⟩
  cut_one outs := by
    have hone : int ['1'] = .ok 1 := by decide
    simp only [countEngine, hone]
    rfl
  mapping_nodup out h := ⟨_, rfl, Dict.items_ofList h⟩

theorem counts_countBackend {D : Type} : Counts (countBackend D) where
  count _ := rfl
  same s t := by
    cases s with
    | none => cases t <;> rfl
    | some s =>
      cases t with
      | none => rfl
      | some t => simp [countBackend, countEngine, textCell]
  arrange outs hcounts := by
    refine ⟨_, rfl, List.perm_insertionSort _ _, ?_⟩
    have hsorted := List.pairwise_insertionSort
      (fun a b : Output (Cell Unit D Unit) => (countOf b).getD 0 ≤ (countOf a).getD 0) outs
    apply hsorted.imp
    intro out out' hle n hn n' hn'
    rwa [Option.mem_def.mp hn, Option.mem_def.mp hn', Option.getD_some, Option.getD_some] at hle
  cut n outs hn := by
    have hlength : (str n).length ≤ maxStrDigits := by
      have hdigits := Nat.toDigits_length 10 n 20 (by decide) (hn.trans (by decide))
      rw [str, Nat.toList_repr]
      exact hdigits.trans (by decide)
    have hint : int (str n) = .ok n := by
      rw [← strInt_natCast]
      exact int_strInt hlength
    simp only [countBackend, countEngine, hint]
    rfl

/-! ### A database with tickets and incidents -/

instance (col : Column) (c : Cell F D N) : Decidable (Admits col c) :=
  match c with
  | .value .null => inferInstanceAs (Decidable (_ = _))
  | .value (.str _) => inferInstanceAs (Decidable (_ ∧ _))
  | .value (.int _) => inferInstanceAs (Decidable (_ ∧ _))
  | .value (.float _) => inferInstanceAs (Decidable (_ = _))
  | .datetime _ => inferInstanceAs (Decidable (_ = _))
  | .value (.bool _) => inferInstanceAs (Decidable False)
  | .value (.arr _) => inferInstanceAs (Decidable False)
  | .value (.obj _) => inferInstanceAs (Decidable False)
  | .decimal _ => inferInstanceAs (Decidable False)

theorem eq_of_cellText {c : Cell F D N} {t : Text} (h : cellText c = some t) :
    c = .value (.str t) := by
  unfold cellText at h
  split at h
  · cases h
    rfl
  · cases h

/-- A row with these texts and times; all its other columns are null. -/
def sampleRow (texts : List (Text × Text)) (times : List Text) : Record (Cell Unit Unit Unit) :=
  fun c =>
    match texts.lookup c with
    | some t => .value (.str t)
    | none => if c ∈ times then .datetime () else .value .null

def sampleTicket (id status priority : Text) : Record (Cell Unit Unit Unit) :=
  sampleRow [("id".toList, id), ("title".toList, "Cannot log in".toList), ("body".toList, []),
    ("status".toList, status), ("priority".toList, priority)] ["created_at".toList]

def sampleIncident (id severity service : Text) : Record (Cell Unit Unit Unit) :=
  sampleRow [("id".toList, id), ("severity".toList, severity), ("service".toList, service),
    ("root_cause_category".toList, "config".toList)] ["opened_at".toList]

def sampleRows (table : Text) : List (Record (Cell Unit Unit Unit)) :=
  if table = tickets then
    [sampleTicket "T-1".toList "open".toList "P1".toList,
      sampleTicket "T-2".toList "closed".toList "P1".toList,
      sampleTicket "T-3".toList "open".toList "P1".toList,
      sampleTicket "T-4".toList "open".toList "P2".toList]
  else if table = incidents then
    [sampleIncident "I-1".toList "P1".toList "auth".toList,
      sampleIncident "I-2".toList "P2".toList "auth".toList,
      sampleIncident "I-3".toList "P1".toList "billing".toList,
      sampleIncident "I-4".toList "P1".toList "auth".toList]
  else []

/-- Four tickets and four incidents, of no customers. -/
def sampleState : State Unit Unit Unit where
  rows := sampleRows
  admits := by decide +kernel
  checks t ht row hrow check hcheck := by
    have hchecks : ∀ t ∈ models, ∀ row ∈ sampleRows t.1, ∀ check ∈ t.2.checks,
        ∃ s ∈ check.2, cellText (row check.1) = some s := by decide +kernel
    obtain ⟨s, hs, hcell⟩ := hchecks t ht row hrow check hcheck
    exact ⟨s, hs, eq_of_cellText hcell⟩
  keys t ht key hkey := by
    have hkeys : ∀ t ∈ models, ∀ key ∈ t.2.keys, (sampleRows t.1).Pairwise fun row row' =>
        ∃ c ∈ key, cellText (row c) ≠ cellText (row' c) := by decide +kernel
    refine (hkeys t ht key hkey).imp ?_
    rintro row row' ⟨c, hc, hne⟩
    exact ⟨c, hc, fun heq => hne (congrArg cellText heq)⟩
  foreignKeys t ht row hrow ref href := by
    have hnull : ∀ t ∈ models, ∀ row ∈ sampleRows t.1, ∀ ref ∈ t.2.foreignKeys,
        (countEngine Unit).isNull (row ref.1) = true := by decide +kernel
    have hcell := hnull t ht row hrow ref href
    left
    unfold countEngine at hcell
    dsimp only at hcell
    split at hcell
    · assumption
    · cases hcell

/-- Tickets by status, the largest group alone: the other one is cut off. -/
theorem counts_shown_tickets :
    ∃ members top, (Call.aggregate tickets ["status".toList] count none none none none
        (1 : ℕ)).selected (countBackend Unit) plainCalendar sampleState = .ok members ∧
      TopGroups (keyOf ["status".toList]) members 1 top ∧
      (.arr [groupJson ["status".toList] ([some "open".toList], 3)] : Json Unit) =
        .arr (top.map (groupJson ["status".toList])) ∧
      (top.map Prod.snd).sum ≤ members.length := by
  have hrun : ∃ log, (Call.aggregate tickets ["status".toList] count none none none none
      (1 : ℕ)).runOn (countBackend Unit) plainInterpreter plainCalendar sampleState [] =
        .ok (.arr [groupJson ["status".toList] ([some "open".toList], 3)]) log := ⟨_, rfl⟩
  obtain ⟨log, hrun⟩ := hrun
  obtain ⟨members, top, hmembers, -, htop, hshown, -, hsum, -⟩ := counts_shown counts_countBackend
    (by decide) (by decide) (by decide) (by decide) hrun
  exact ⟨members, top, hmembers, htop, hshown, hsum⟩

end GroundedOps.McpServer
