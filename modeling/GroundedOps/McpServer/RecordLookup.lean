import GroundedOps.McpServer.DrillDown

/-!
# Records by their ids

Every stored row of a table with texts for ids is fetched by its id, with all its columns, and no
other id fetches anything.
-/

namespace GroundedOps.McpServer

open Python Security Sql Db Program

variable {F D N : Type}

/-- A row as it is returned. -/
def recordJson (cal : Calendar F D N) (table : Text) (row : Record (Cell F D N)) : Json F :=
  .obj ((columnsOf table).map fun c => (c, jsonable cal (row c)))

theorem text_ids : ∀ e ∈ allowed, e.1 ≠ metricsDaily → ∃ t ∈ models, t.1 = e.1 ∧
    ["id".toList] ∈ t.2.keys ∧ ∃ col ∈ t.2.columns, col.name = "id".toList ∧
      col.type = .string := by
  decide +kernel

theorem id_mem_columnsOf : ∀ e ∈ allowed, "id".toList ∈ columnsOf e.1 := by decide +kernel

theorem nodup_columnsOf : ∀ e ∈ allowed, (columnsOf e.1).Nodup := by decide +kernel

/-- Among values without repetition only one is found. -/
theorem filter_eq_singleton {α β : Type} [DecidableEq β] {f : α → β} {l : List α}
    (h : (l.map f).Nodup) {x : α} (hx : x ∈ l) : l.filter (fun y => f y = f x) = [x] := by
  induction l with
  | nil => cases hx
  | cons y l ih =>
    obtain ⟨hy, hl⟩ := List.nodup_cons.mp h
    rcases List.mem_cons.mp hx with rfl | hx
    · have hrest : l.filter (fun y => f y = f x) = [] := by
        rw [List.filter_eq_nil_iff]
        intro z hz heq
        exact hy (of_decide_eq_true heq ▸ List.mem_map_of_mem hz)
      rw [List.filter_cons, if_pos (decide_eq_true rfl), hrest]
    · have hne : f y ≠ f x := fun heq => hy (heq ▸ List.mem_map_of_mem hx)
      rw [List.filter_cons_of_neg (by simpa using hne), ih hl hx]

/-- Conditions that cannot fail select the rows that pass. -/
theorem filterRows_eq_filter {engine : Engine (Cell F D N) (Param F D) Exn}
    {tests : List (Test (Cell F D N))} {p : Record (Cell F D N) → Bool}
    {rows : List (Record (Cell F D N))} (h : ∀ row ∈ rows, passes engine row tests = .ok (p row)) :
    filterRows engine tests rows = .ok (rows.filter p) := by
  have hall : filterRows engine [] rows = .ok rows := by
    clear h
    induction rows with
    | nil => rfl
    | cons row rows ih => exact bind_eq_ok.mpr ⟨true, rfl, bind_eq_ok.mpr ⟨rows, ih, rfl⟩⟩
  refine filterRows_refine (fun row hrow passed hpassed => ?_) hall
  cases hpassed
  rw [Bool.true_and, h row hrow]

section Lookup

variable {backend : Backend F D N} {py : Interpreter F} {cal : Calendar F D N} {s : State F D N}
  {table id : Text}

/-- The statement for a record selects the rows with its id. -/
theorem selected_record (htexts : ComparesTexts backend) {e : Text × TablePolicy}
    (he : e ∈ allowed) (hmetrics : e.1 ≠ metricsDaily) (hid : nul ∉ id)
    {bound : Name → Option (Param F D)} (hbound : bound "id".toList = some (.value (.str id))) :
    Sql.selected backend.engine (recordSelect e.1) bound (s.rows e.1) =
      .ok ((s.rows e.1).filter fun row => cellText (row "id".toList) = some id) := by
  obtain ⟨t, ht, htable, -, col, hcol, hname, hstring⟩ := text_ids e he hmetrics
  obtain ⟨v, hv, hcompare⟩ := htexts t ht col hcol hstring id hid
  rw [htable, hname] at hv
  have hconds := recordSelect_tests backend.engine e.1 hbound
  rw [hv] at hconds
  apply bind_eq_ok.mpr
  refine ⟨_, hconds, filterRows_eq_filter fun row hrow => ?_⟩
  rw [← htable] at hrow
  have hcell := textCell_cellText (s.admits t ht row hrow col hcol) hstring
  have hholds := hcompare (cellText (row col.name))
  rw [hcell, hname] at hholds
  rw [passes, holds, hholds, ok_bind]
  cases decide (cellText (row "id".toList) = some id) <;> rfl

/-- No two rows have one id. -/
theorem nodup_ids {e : Text × TablePolicy} (he : e ∈ allowed) (hmetrics : e.1 ≠ metricsDaily) :
    ((s.rows e.1).map fun row => cellText (row "id".toList)).Nodup := by
  obtain ⟨t, ht, htable, hkey, col, hcol, hname, hstring⟩ := text_ids e he hmetrics
  rw [← htable, List.Nodup, List.pairwise_map]
  have hkeys := s.keys t ht _ hkey
  apply hkeys.imp_of_mem
  intro row row' hrow hrow' hdiffer heq
  obtain ⟨c, hc, hne⟩ := hdiffer
  obtain rfl := List.mem_singleton.mp hc
  have hcell := textCell_cellText (s.admits t ht row hrow col hcol) hstring
  have hcell' := textCell_cellText (s.admits t ht row' hrow' col hcol) hstring
  rw [hname] at hcell hcell'
  apply hne
  rw [← hcell, ← hcell', heq]

/-- What fetching a record returns is computed from the rows with its id. -/
theorem runOn_record (htexts : ComparesTexts backend) {e : Text × TablePolicy}
    (he : e ∈ allowed) (hmetrics : e.1 ≠ metricsDaily) (hid : nul ∉ id)
    (log : List (Statement F D)) :
    ∃ log', (Call.record e.1 id).runOn backend py cal s log =
      .ok ((((s.rows e.1).filter fun row => cellText (row "id".toList) = some id).head?.map
        (recordJson cal e.1)).getD .null) log' := by
  have hpolicy : ∃ st, (recordStatement e.1 id : Except Exn (Statement F D)) = .ok st := by
    have hlisted : ∀ e ∈ allowed, ∃ p, policy e.1 = .ok p := by
      simp only [allowed, List.forall_mem_cons, List.not_mem_nil, false_imp_iff, implies_true,
        and_true]
      exact ⟨⟨_, rfl⟩, ⟨_, rfl⟩, ⟨_, rfl⟩, ⟨_, rfl⟩, ⟨_, rfl⟩⟩
    obtain ⟨p, hp⟩ := hlisted e he
    exact ⟨_, bind_eq_ok.mpr ⟨p, hp, rfl⟩⟩
  obtain ⟨st, hst⟩ := hpolicy
  obtain ⟨hsql, hbound⟩ := recordStatement_ok hst
  have hcolumns : (recordSelect e.1).columns.all (columnsOf e.1).contains = true := by
    rw [List.all_eq_true]
    intro c hc
    obtain rfl : c = "id".toList := List.mem_singleton.mp hc
    exact List.contains_iff_mem.mpr (id_mem_columnsOf e he)
  have hselected := selected_record (s := s) htexts he hmetrics hid hbound
  generalize (s.rows e.1).filter (fun row => cellText (row "id".toList) = some id) = members
    at hselected ⊢
  have hresults : results backend.engine (columnsOf e.1) (recordSelect e.1) members =
      .ok (members.map fun row => (columnsOf e.1).map fun c => (c, row c)) :=
    mapM_ok_map fun row _ => project_all backend.engine (columnsOf e.1) none row
  have heval : eval backend.engine (columnsOf e.1) (recordSelect e.1) st.params.get?
      (s.rows e.1) = .ok ((members.take 1).map fun row => (columnsOf e.1).map fun c => (c, row c)) :=
    eval_eq_ok.mpr ⟨hcolumns, members, hselected, _, hresults, _, rfl, by
      rw [List.map_take]
      exact backend.cut_one _⟩
  have hrun : ∀ rows, ((members.take 1).map fun row => (columnsOf e.1).map fun c =>
      (c, row c)).mapM backend.mapping = .ok rows →
        (Call.record e.1 id).runOn backend py cal s log =
          .ok (recordResult cal rows) (log ++ [st]) := by
    intro rows hrows
    have hanswer : backend.answer s (recordSelect e.1) st = .ok rows :=
      answer_eq_ok.mpr ⟨hsql, _, heval, hrows⟩
    exact query_eq_ok.mpr ⟨st, hst, rows, by rw [backend.session_append]; exact hanswer, rfl, rfl⟩
  cases members with
  | nil => exact ⟨_, hrun [] rfl⟩
  | cons row members =>
    have hlabels : (((columnsOf e.1).map fun c => (c, row c)).map Prod.fst).Nodup := by
      rw [List.map_map]
      exact (List.map_id _).symm ▸ nodup_columnsOf e he
    obtain ⟨r, hr, hitems⟩ := backend.mapping_nodup _ hlabels
    have hrows : (((row :: members).take 1).map fun row => (columnsOf e.1).map fun c =>
        (c, row c)).mapM backend.mapping = .ok [r] := by
      rw [List.take_succ_cons, List.take_zero, List.map_singleton, List.mapM_cons, hr]
      rfl
    have hresult : recordResult cal [r] = recordJson cal e.1 row := by
      rw [recordResult, rowToJson, hitems, List.map_map]
      rfl
    rw [hrun [r] hrows, hresult]
    exact ⟨_, rfl⟩

/-- Every stored row is fetched by its id, with all columns; another id fetches nothing. -/
theorem record_fetched (htexts : ComparesTexts backend) {e : Text × TablePolicy}
    (he : e ∈ allowed) (hmetrics : e.1 ≠ metricsDaily) (hid : nul ∉ id)
    (log : List (Statement F D)) :
    (∀ row ∈ s.rows e.1, cellText (row "id".toList) = some id → ∃ log',
      (Call.record e.1 id).runOn backend py cal s log = .ok (recordJson cal e.1 row) log') ∧
    ((∀ row ∈ s.rows e.1, cellText (row "id".toList) ≠ some id) → ∃ log',
      (Call.record e.1 id).runOn backend py cal s log = .ok .null log') := by
  obtain ⟨log', hrun⟩ := @runOn_record F D N backend py cal s id htexts e he hmetrics hid log
  constructor
  · intro row hrow hrowId
    have hone := filter_eq_singleton (nodup_ids (s := s) he hmetrics) hrow
    rw [hrowId] at hone
    rw [hone] at hrun
    exact ⟨log', hrun⟩
  · intro hnone
    have hempty : (s.rows e.1).filter (fun row => cellText (row "id".toList) = some id) = [] := by
      rw [List.filter_eq_nil_iff]
      intro row hrow
      simpa using hnone row hrow
    rw [hempty] at hrun
    exact ⟨log', hrun⟩

end Lookup

end GroundedOps.McpServer
