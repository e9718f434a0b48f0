import GroundedOps.Db.Models
import GroundedOps.Library.SqlMeaning
import GroundedOps.McpServer.InjectionSafety

/-!
# What the tools reveal of the database

The statement of a call is answered by its meaning over a state of the database. Every
column it reads is listed in the policy of its table, except that a record is fetched with
all columns of its table: for a ticket these include the body, which no policy lists.
-/

namespace GroundedOps.McpServer

open Python Security Sql Db Program

variable {F D N : Type}

/-! ### States of the database -/

def nul : Char := '\x00'

/-- The values a column can have. -/
def Admits (col : Column) : Cell F D N → Prop
  | .value .null => col.nullable = true
  | .value (.str s) => col.type = .string ∧ nul ∉ s
  | .value (.int n) => col.type = .integer ∧ -2 ^ 31 ≤ n ∧ n < 2 ^ 31
  | .value (.float _) => col.type = .float
  | .datetime _ => col.type = .timestamp
  | _ => False

/-- The rows of every table, in some order, with everything the database enforces. -/
structure State (F D N : Type) where
  rows : Text → List (Record (Cell F D N))
  admits : ∀ t ∈ models, ∀ row ∈ rows t.1, ∀ col ∈ t.2.columns, Admits col (row col.name)
  checks : ∀ t ∈ models, ∀ row ∈ rows t.1, ∀ check ∈ t.2.checks,
    ∃ s ∈ check.2, row check.1 = .value (.str s)
  keys : ∀ t ∈ models, ∀ key ∈ t.2.keys,
    (rows t.1).Pairwise fun row row' => ∃ c ∈ key, row c ≠ row' c
  foreignKeys : ∀ t ∈ models, ∀ row ∈ rows t.1, ∀ ref ∈ t.2.foreignKeys,
    row ref.1 = .value .null ∨ ∃ target ∈ rows ref.2, target "id".toList = row ref.1

/-- The states have the same values in all columns that the policies list. -/
def Agree (s s' : State F D N) : Prop :=
  ∀ e ∈ allowed, List.Forall₂ (AgreeOn e.2.columns) (s.rows e.1) (s'.rows e.1)

/-- The database and its driver. The laws say how texts are bound and compared, what a limit
of one row does, and how a row is converted. -/
structure Backend (F D N : Type) where
  engine : Engine (Cell F D N) (Param F D) Exn
  mapping : Output (Cell F D N) → Except Exn (Row F D N)
  bind_text : ∀ t ∈ models, ∀ col ∈ t.2.columns, col.type = .string → ∀ s, nul ∉ s →
    ∃ v, engine.bindValue t.1 col.name (.value (.str s)) = .ok v ∧
      engine.compare ['='] (.value (.str s)) v = .ok true
  bind_nul : ∀ table column s, nul ∈ s →
    ∃ e, engine.bindValue table column (.value (.str s)) = .error e
  cut_one : ∀ outs, engine.cut ['1'] outs = .ok (outs.take 1)
  mapping_nodup : ∀ out : Output (Cell F D N), (out.map Prod.fst).Nodup →
    ∃ row, mapping out = .ok row ∧ row.items = out

namespace Backend

variable (backend : Backend F D N)

/-- The answer to a statement that is the text of `q`. -/
def answer (s : State F D N) (q : Select) (st : Statement F D) :
    Except Exn (List (Row F D N)) :=
  if st.sql = q.render then do
    let outs ← eval backend.engine (columnsOf q.table) q st.params.get? (s.rows q.table)
    outs.mapM backend.mapping
  else .error backend.engine.undefined

/-- A session of which the statements executed last are answered as `q`. -/
def session (s : State F D N) (q : Select) (executed : List (Statement F D)) :
    Except Exn (List (Row F D N)) :=
  match executed.getLast? with
  | none => .ok []
  | some st => backend.answer s q st

end Backend

/-- A call over a state of the database. -/
def Call.runOn (backend : Backend F D N) (py : Interpreter F) (cal : Calendar F D N)
    (s : State F D N) (call : Call F) : AnalyticsM F D (Json F) :=
  call.run py cal (backend.session s call.shape.select)

/-! ### What a statement reads -/

theorem columnsOf_subset : ∀ e ∈ allowed, e.1 ≠ tickets → ∀ c ∈ columnsOf e.1, c ∈ e.2.columns := by
  decide +kernel

theorem bucket_notMem : bucket ∉ columnsOf metricsDaily := by decide +kernel

theorem aggregateExpr_ne_all (aggFn : Text) (column : Option Text) :
    aggregateExpr aggFn column ≠ .all := by
  unfold aggregateExpr
  split_ifs <;> nofun

theorem metricExpr_ne_all (metric : Text) : metricExpr metric ≠ .all := by
  unfold metricExpr
  split_ifs <;> nofun

/-- Only a record is fetched with all columns. -/
theorem shape_of_all {shape : Shape} {p : Expr × Option Name} (hp : p ∈ shape.select.items)
    (hall : p.1 = .all) : ∃ table, shape = .record table := by
  cases shape with
  | aggregate table groupBy aggFn column filterKeys start stop cap =>
    rcases List.mem_append.mp hp with hp | hp
    · obtain ⟨g, -, rfl⟩ := List.mem_map.mp hp
      cases hall
    · obtain rfl := List.mem_singleton.mp hp
      exact absurd hall (aggregateExpr_ne_all aggFn column)
  | queryMetric metric severity service start stop =>
    obtain rfl := List.mem_singleton.mp hp
    exact absurd hall (metricExpr_ne_all metric)
  | timeseries service granularity start stop cap =>
    rcases List.mem_pair.mp hp with rfl | rfl <;> cases hall
  | record table => exact ⟨table, rfl⟩

theorem Admitted.reads {shape : Shape} (h : Admitted shape) (hticket : shape ≠ .record tickets) :
    ∃ p, (shape.select.table, p) ∈ allowed ∧
      Reads (columnsOf shape.select.table) shape.select p.columns := by
  obtain ⟨p, hp, hcolumns, hgroupBy⟩ := h.table
  have hmem := policy_validates shape.select.table
  rw [hp] at hmem
  refine ⟨p, hmem, hcolumns, fun g hg hcol => ?_, fun item hitem hall c hc => ?_⟩
  · rcases hgroupBy g hg with hg | ⟨hseries, rfl⟩
    · exact p.groupBy_mem g hg
    · cases shape with
      | timeseries => exact absurd hcol bucket_notMem
      | aggregate => cases hseries
      | queryMetric => cases hseries
      | record => cases hseries
  · obtain ⟨table, rfl⟩ := shape_of_all hitem hall
    apply columnsOf_subset _ hmem _ c hc
    intro htable
    exact hticket (congrArg Shape.record htable)

/-! ### Two states that agree -/

theorem query_congr {db db' : List (Statement F D) → Except Exn (List (Row F D N))}
    {statement : Except Exn (Statement F D)}
    (convert : List (Row F D N) → Except Exn (Json F)) {log : List (Statement F D)}
    (h : ∀ st, statement = .ok st → db (log ++ [st]) = db' (log ++ [st])) :
    query db statement convert log = query db' statement convert log := by
  cases statement with
  | error e => rfl
  | ok st =>
    have hexecute : execute db st log = execute db' st log := by
      simp only [execute, h st rfl]
    have hstatement : (ofExcept (.ok st) : AnalyticsM F D (Statement F D)) log = .ok st log := rfl
    rw [query, query, run_bind_ok hstatement, run_bind_ok hstatement]
    simp only [bind, EStateM.bind, hexecute]

/-! ### The statement for a record -/

theorem recordStatement_ok {table id : Text} {st : Statement F D}
    (h : recordStatement table id = .ok st) :
    st.sql = (recordSelect table).render ∧
      st.params.get? "id".toList = some (.value (.str id)) := by
  obtain ⟨p, -, hst⟩ := bind_eq_ok.mp h
  cases hst
  exact ⟨recordSql_render table, by rw [Dict.get?_set, if_pos rfl]⟩

theorem recordSelect_tests {V P E : Type} (engine : Engine V P E) (table : Text)
    {bound : Name → Option P} {p : P} (h : bound "id".toList = some p) :
    (recordSelect table).conds.mapM (bindCond engine (recordSelect table).table bound) =
      (engine.bindValue table "id".toList p).map fun v => [.compare "id".toList ['='] v] := by
  simp only [recordSelect, List.mapM_cons, bindCond, h]
  cases engine.bindValue table "id".toList p <;> rfl

section Backends

variable (backend : Backend F D N) (py : Interpreter F) (cal : Calendar F D N)

theorem Backend.session_append (s : State F D N) (q : Select) (log : List (Statement F D))
    (st : Statement F D) : backend.session s q (log ++ [st]) = backend.answer s q st := by
  rw [Backend.session, List.getLast?_concat]

/-- A call whose statement is answered alike gives the same result. -/
theorem Call.runOn_congr {s s' : State F D N} {call : Call F}
    (h : ∀ st, call.statement cal = .ok st →
      backend.answer s call.shape.select st = backend.answer s' call.shape.select st)
    (log : List (Statement F D)) :
    call.runOn backend py cal s log = call.runOn backend py cal s' log := by
  obtain ⟨convert, hrun⟩ := call.run_eq_query py cal
  rw [Call.runOn, Call.runOn, hrun, hrun]
  apply query_congr
  intro st hst
  rw [backend.session_append, backend.session_append]
  exact h st hst

theorem answer_eq_of_agree {s s' : State F D N} (hagree : Agree s s') {shape : Shape}
    (h : Admitted shape) (hticket : shape ≠ .record tickets) (st : Statement F D) :
    backend.answer s shape.select st = backend.answer s' shape.select st := by
  obtain ⟨p, hp, hreads⟩ := h.reads hticket
  simp only [Backend.answer, eval_congr backend.engine hreads st.params.get? (hagree _ hp)]

/-- An id with a zero character is refused before any row is read. -/
theorem answer_eq_of_nul {table id : Text} (hid : nul ∈ id) {st : Statement F D}
    (hst : recordStatement table id = .ok st) (s s' : State F D N) :
    backend.answer s (recordSelect table) st = backend.answer s' (recordSelect table) st := by
  obtain ⟨hsql, hbound⟩ := recordStatement_ok hst
  obtain ⟨e, he⟩ := backend.bind_nul table "id".toList id hid
  have heval : ∀ rows rows', eval backend.engine (columnsOf (recordSelect table).table)
      (recordSelect table) st.params.get? rows =
        eval backend.engine (columnsOf (recordSelect table).table) (recordSelect table)
          st.params.get? rows' := by
    intro rows rows'
    unfold eval
    rw [recordSelect_tests backend.engine table hbound, he]
    rfl
  rw [Backend.answer, Backend.answer, heval (s.rows (recordSelect table).table)]

end Backends

/-! ### A ticket and its body -/

def ticketCells (created : D) (id body : Text) : List (Text × Cell F D N) :=
  [("id".toList, .value (.str id)), ("title".toList, .value (.str "Refund".toList)),
    ("body".toList, .value (.str body)), ("priority".toList, .value (.str "P1".toList)),
    ("status".toList, .value (.str "open".toList)), ("created_at".toList, .datetime created)]

/-- An open ticket of no customer. -/
def ticketRow (created : D) (id body : Text) : Record (Cell F D N) := fun c =>
  ((ticketCells created id body).lookup c).getD (.value .null)

/-- The only table with rows is that of the tickets, and it has one. -/
def ticketRows (created : D) (id body table : Text) : List (Record (Cell F D N)) :=
  if table = tickets then [ticketRow created id body] else []

theorem mem_ticketRows {created : D} {id body table : Text} {row : Record (Cell F D N)}
    (h : row ∈ ticketRows created id body table) :
    table = tickets ∧ row = ticketRow created id body := by
  unfold ticketRows at h
  split_ifs at h with htable
  · exact ⟨htable, List.mem_singleton.mp h⟩
  · cases h

theorem eq_ticket_of_mem {t : Text × Table} (ht : t ∈ models) (h : t.1 = tickets) :
    t = (tickets, ticket) := by
  simp only [models, List.mem_cons, List.not_mem_nil, or_false] at ht
  rcases ht with rfl | rfl | rfl | rfl | rfl
  · exact absurd h (by decide)
  · exact absurd h (by decide)
  · exact absurd h (by decide)
  · rfl
  · exact absurd h (by decide)

theorem ticketRow_admits (created : D) {id body : Text} (hid : nul ∉ id) (hbody : nul ∉ body) :
    ∀ col ∈ ticket.columns,
      Admits col (ticketRow created id body col.name : Cell F D N) := by
  intro col hcol
  simp only [ticket, List.mem_cons, List.not_mem_nil, or_false] at hcol
  rcases hcol with rfl | rfl | rfl | rfl | rfl | rfl | rfl | rfl
  · exact ⟨rfl, hid⟩
  · exact ⟨rfl, by decide⟩
  · exact ⟨rfl, hbody⟩
  · exact rfl
  · exact ⟨rfl, by decide⟩
  · exact ⟨rfl, by decide⟩
  · exact rfl
  · exact rfl

def ticketState (created : D) {id body : Text} (hid : nul ∉ id) (hbody : nul ∉ body) :
    State F D N where
  rows := ticketRows created id body
  admits t ht row hrow := by
    obtain ⟨htable, rfl⟩ := mem_ticketRows hrow
    obtain rfl := eq_ticket_of_mem ht htable
    exact ticketRow_admits created hid hbody
  checks t ht row hrow check hcheck := by
    obtain ⟨htable, rfl⟩ := mem_ticketRows hrow
    obtain rfl := eq_ticket_of_mem ht htable
    rcases List.mem_pair.mp hcheck with rfl | rfl
    · exact ⟨"P1".toList, by decide, rfl⟩
    · exact ⟨"open".toList, by decide, rfl⟩
  keys t _ key _ := by
    unfold ticketRows
    split_ifs
    · exact List.pairwise_singleton _ _
    · exact .nil
  foreignKeys t ht row hrow ref href := by
    obtain ⟨htable, rfl⟩ := mem_ticketRows hrow
    obtain rfl := eq_ticket_of_mem ht htable
    obtain rfl := List.mem_singleton.mp href
    exact .inl rfl

/-- Two tickets that differ in their bodies are alike in the columns that are listed. -/
theorem agree_ticketState (created : D) {id body body' : Text} (hid : nul ∉ id)
    (hbody : nul ∉ body) (hbody' : nul ∉ body') :
    Agree (ticketState created hid hbody : State F D N) (ticketState created hid hbody') := by
  intro e he
  have hlisted : ∀ e ∈ allowed, "body".toList ∉ e.2.columns := by decide +kernel
  have hrow : AgreeOn e.2.columns (ticketRow created id body : Record (Cell F D N))
      (ticketRow created id body') := by
    intro c hc
    have hne : c ≠ "body".toList := fun h => hlisted e he (h ▸ hc)
    simp only [ticketRow, ticketCells, List.lookup_cons, beq_eq_false_iff_ne.mpr hne]
  change List.Forall₂ _ (ticketRows created id body e.1) (ticketRows created id body' e.1)
  unfold ticketRows
  split_ifs
  · exact .cons hrow .nil
  · exact .nil

section Backends

variable (backend : Backend F D N) (py : Interpreter F) (cal : Calendar F D N)

/-- The statement for a record returns all columns of the row with that id. -/
theorem eval_record (columns : List Text) (hcolumn : "id".toList ∈ columns) {table id : Text}
    {bound : Name → Option (Param F D)} (hbound : bound "id".toList = some (.value (.str id)))
    {row : Record (Cell F D N)} {v : Cell F D N}
    (hbind : backend.engine.bindValue table "id".toList (.value (.str id)) = .ok v)
    (hcompare : backend.engine.compare ['='] (row "id".toList) v = .ok true) :
    eval backend.engine columns (recordSelect table) bound [row] =
      .ok [columns.map fun c => (c, row c)] := by
  have htests := recordSelect_tests backend.engine table hbound
  rw [hbind] at htests
  have hkept : filterRows backend.engine [.compare "id".toList ['='] v] [row] = .ok [row] := by
    simp only [filterRows, passes, holds, hcompare]
    rfl
  have hresults : results backend.engine columns (recordSelect table) [row] =
      .ok [columns.map fun c => (c, row c)] := by
    have hmap : [row].mapM (fun row => project (scalar backend.engine row)
        (outputs columns [(.all, none)])) = .ok [columns.map fun c => (c, row c)] := by
      rw [List.mapM_cons, project_all backend.engine columns none row]
      rfl
    exact hmap
  have hcolumns : (recordSelect table).columns.all columns.contains = true := by
    rw [List.all_eq_true]
    intro c hc
    obtain rfl : c = "id".toList := List.mem_singleton.mp hc
    exact List.contains_iff_mem.mpr hcolumn
  unfold eval
  rw [if_pos hcolumns, htests]
  simp only [Except.map, ok_bind, hkept, hresults]
  exact backend.cut_one _

theorem answer_ticket {s : State F D N} {row : Record (Cell F D N)} (hrows : s.rows tickets = [row])
    {id : Text} (hid : nul ∉ id) (hrow : row "id".toList = .value (.str id)) {st : Statement F D}
    (hst : recordStatement tickets id = .ok st) :
    ∃ r, backend.answer s (recordSelect tickets) st = .ok [r] ∧
      r.items = (columnsOf tickets).map fun c => (c, row c) := by
  obtain ⟨hsql, hbound⟩ := recordStatement_ok hst
  have hmem : (tickets, ticket) ∈ models := by simp [models]
  obtain ⟨v, hbind, hcompare⟩ := backend.bind_text _ hmem ⟨"id".toList, .string, false⟩
    (by decide) rfl id hid
  rw [← hrow] at hcompare
  have heval := eval_record backend (columnsOf tickets) (by decide +kernel) hbound hbind hcompare
  have hlabels : ((columnsOf tickets).map fun c => (c, row c)).map Prod.fst =
      columnsOf tickets := by
    rw [List.map_map]
    exact List.map_id _
  have hnodup : (((columnsOf tickets).map fun c => (c, row c)).map Prod.fst).Nodup := by
    rw [hlabels]
    decide +kernel
  obtain ⟨r, hr, hitems⟩ := backend.mapping_nodup _ hnodup
  have htable : (recordSelect tickets).table = tickets := rfl
  refine ⟨r, ?_, hitems⟩
  rw [Backend.answer, if_pos hsql, htable, hrows, heval, ok_bind, List.mapM_cons, hr]
  rfl

/-- Fetching a ticket gives all its columns. -/
theorem runOn_ticket {s : State F D N} {row : Record (Cell F D N)} (hrows : s.rows tickets = [row])
    {id : Text} (hid : nul ∉ id) (hrow : row "id".toList = .value (.str id))
    (log : List (Statement F D)) : ∃ log',
      (Call.record tickets id).runOn backend py cal s log =
        .ok (.obj ((columnsOf tickets).map fun c => (c, jsonable cal (row c)))) log' := by
  have hpolicy : ∃ st, (recordStatement tickets id : Except Exn (Statement F D)) = .ok st :=
    ⟨_, rfl⟩
  obtain ⟨st, hst⟩ := hpolicy
  obtain ⟨r, hanswer, hitems⟩ := answer_ticket backend hrows hid hrow hst
  have hstatement : (ofExcept (recordStatement tickets id) : AnalyticsM F D (Statement F D)) log =
      .ok st log := by
    rw [hst]
    rfl
  have hexecute : execute (backend.session s (recordSelect tickets)) st log =
      .ok [r] (log ++ [st]) := by
    simp only [execute, backend.session_append, hanswer]
  refine ⟨log ++ [st], ?_⟩
  have hresult : recordResult cal [r] =
      .obj ((columnsOf tickets).map fun c => (c, jsonable cal (row c))) := by
    rw [recordResult, rowToJson, hitems, List.map_map]
    rfl
  change query _ (recordStatement tickets id) _ log = _
  rw [query, run_bind_ok hstatement]
  have hselect : (Call.record tickets id : Call F).shape.select = recordSelect tickets := rfl
  rw [hselect, run_bind_ok hexecute, ← hresult]
  rfl

/-- The body of a ticket is part of what fetching it returns. -/
theorem runOn_ticketState_ne (created : D) {id body body' : Text} (hid : nul ∉ id)
    (hbody : nul ∉ body) (hbody' : nul ∉ body') (hne : body ≠ body') (log : List (Statement F D)) :
    (Call.record tickets id).runOn backend py cal (ticketState created hid hbody) log ≠
      (Call.record tickets id).runOn backend py cal (ticketState created hid hbody') log := by
  have hrows : ∀ {b : Text} (hb : nul ∉ b),
      (ticketState created hid hb : State F D N).rows tickets = [ticketRow created id b] :=
    fun _ => rfl
  obtain ⟨log₁, h₁⟩ := runOn_ticket backend py cal (hrows hbody) hid rfl log
  obtain ⟨log₂, h₂⟩ := runOn_ticket backend py cal (hrows hbody') hid rfl log
  intro heq
  rw [h₁, h₂] at heq
  injection heq with hjson
  injection hjson with hitems
  have hitem := congrArg (fun items => items[2]?) hitems
  have hcell : some ("body".toList, (Json.str body : Json F)) = some ("body".toList, .str body') :=
    hitem
  injection hcell with hpair
  injection (Prod.ext_iff.mp hpair).2 with htext
  exact hne htext

/-- A call reveals the listed columns and nothing else exactly if it does not fetch a ticket.
An id with a zero character fetches none. -/
theorem listed_columns_only_iff [Inhabited D] (call : Call F) :
    (∀ (s s' : State F D N) (log : List (Statement F D)), Agree s s' →
      call.runOn backend py cal s log = call.runOn backend py cal s' log) ↔
        ¬ ∃ id, call = .record tickets id ∧ nul ∉ id := by
  constructor
  · rintro h ⟨id, rfl, hid⟩
    have hempty : nul ∉ ([] : Text) := List.not_mem_nil
    have hother : nul ∉ "other".toList := by decide
    have hagree : Agree (ticketState default hid hempty : State F D N)
        (ticketState default hid hother) := agree_ticketState default hid hempty hother
    exact runOn_ticketState_ne backend py cal default hid hempty hother (by decide) []
      (h _ _ [] hagree)
  · intro hcall s s' log hagree
    apply call.runOn_congr backend py cal
    intro st hst
    by_cases hticket : call.shape = .record tickets
    · cases call with
      | record table id =>
        cases hticket
        have hid : nul ∈ id := by
          by_contra hid
          exact hcall ⟨id, rfl, hid⟩
        exact answer_eq_of_nul backend hid hst s s'
      | aggregate => cases hticket
      | queryMetric => cases hticket
      | timeseries => cases hticket
    · have hissued := statement_validates cal call
      rw [hst] at hissued
      exact answer_eq_of_agree backend hagree hissued.admitted hticket st

end Backends

/-! ### A database with one ticket -/

/-- A database that binds and compares texts. -/
def textEngine : Engine (Cell Unit Unit Unit) (Param Unit Unit) Exn where
  undefined := .other "ProgrammingError".toList
  bindValue _ _
    | .value (.str s) => if nul ∈ s then .error .valueError else .ok (.value (.str s))
    | .value v => .ok (.value v)
    | .datetime d => .ok (.datetime d)
  isNull
    | .value .null => true
    | _ => false
  compare op
    | .value (.str s), .value (.str t) =>
      if op = ['='] then .ok (s = t) else .error .typeError
    | _, _ => .error .typeError
  same
    | .value (.str s), .value (.str t) => s = t
    | _, _ => false
  count n := .value (.int n)
  aggregate _ _ := .error .typeError
  median _ := .error .typeError
  minutes _ _ := .error .typeError
  truncate _ _ := .error .typeError
  arrange _ outs := .ok outs
  cut limit outs := (int limit).map fun n => outs.take n.toNat

def textBackend : Backend Unit Unit Unit where
  engine := textEngine
  mapping out := .ok (.ofList out)
  bind_text t _ col _ _ s hs := by
    refine ⟨.value (.str s), if_neg hs, ?_⟩
    simp [textEngine]
  bind_nul table column s hs := ⟨.valueError, if_pos hs⟩
  cut_one outs := by
    have hone : int ['1'] = .ok 1 := by decide
    simp only [textEngine, hone]
    rfl
  mapping_nodup out h := ⟨_, rfl, Dict.items_ofList h⟩

theorem nul_notMem_id : nul ∉ "T-1".toList := by decide

theorem nul_notMem_bodies : nul ∉ "card number 4111".toList ∧ nul ∉ "card number 5500".toList := by
  decide

/-- The database with ticket `T-1`. -/
def oneTicket {body : Text} (hbody : nul ∉ body) : State Unit Unit Unit :=
  ticketState () nul_notMem_id hbody

/-- Two states agree on all listed columns, and fetching the ticket tells them apart. -/
theorem ticket_body_revealed :
    Agree (oneTicket nul_notMem_bodies.1) (oneTicket nul_notMem_bodies.2) ∧
      (Call.record tickets "T-1".toList).runOn textBackend plainInterpreter plainCalendar
          (oneTicket nul_notMem_bodies.1) [] ≠
        (Call.record tickets "T-1".toList).runOn textBackend plainInterpreter plainCalendar
          (oneTicket nul_notMem_bodies.2) [] := by
  constructor
  · exact agree_ticketState () nul_notMem_id nul_notMem_bodies.1 nul_notMem_bodies.2
  · exact runOn_ticketState_ne textBackend plainInterpreter plainCalendar () nul_notMem_id
      nul_notMem_bodies.1 nul_notMem_bodies.2 (by decide) []

end GroundedOps.McpServer
