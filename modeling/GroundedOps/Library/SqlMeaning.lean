import GroundedOps.Library.Lists
import GroundedOps.Library.Program
import GroundedOps.Library.Sql

/-!
# The meaning of select statements

A row gives every column a value, a table is a list of rows. What a statement returns is
put together from the operations of a database, which are arbitrary: the values of the
conditions are bound, the rows are filtered and grouped, the items are computed, the result
is ordered and cut. It depends on no column that the statement does not mention.
-/

namespace GroundedOps.Sql

variable {V P E : Type}

abbrev Record (V : Type) := Name → V

/-- A row of a result: its values under their labels. -/
abbrev Output (V : Type) := List (Name × V)

/-- The operations of a database with values `V`. A program binds values of another type;
what they become depends on the column they are compared with. -/
structure Engine (V P E : Type) where
  undefined : E
  bindValue : Name → Name → P → Except E V
  isNull : V → Bool
  compare : Name → V → V → Except E Bool
  same : V → V → Bool
  count : ℕ → V
  aggregate : Name → List V → Except E V
  median : List V → Except E V
  minutes : V → V → Except E V
  truncate : Name → V → Except E V
  arrange : Name → List (Output V) → Except E (List (Output V))
  cut : Name → List (Output V) → Except E (List (Output V))

/-- A condition with its bound value. -/
inductive Test (V : Type)
  | trivial
  | isNull (column : Name)
  | isNotNull (column : Name)
  | compare (column op : Name) (v : V)

def Test.columns : Test V → List Name
  | .trivial => []
  | .isNull col | .isNotNull col => [col]
  | .compare col _ _ => [col]

/-- The label of an item without one. -/
def Expr.label : Expr → Name
  | .column name => name
  | .all => ['*']
  | .countAll => "count".toList
  | .aggregate fn _ => fn
  | .average _ => "avg".toList
  | .median _ => "percentile_cont".toList
  | .minutes _ _ => "?column?".toList
  | .truncated _ _ => "date_trunc".toList

def expandItem (columns : List Name) : Expr × Option Name → List (Name × Expr)
  | (.all, _) => columns.map fun c => (c, .column c)
  | (e, label) => [(label.getD e.label, e)]

/-- The labelled expressions of a statement over a table with these columns. -/
def outputs (columns : List Name) (items : List (Expr × Option Name)) : List (Name × Expr) :=
  items.flatMap (expandItem columns)

/-- Adds a row to the group with its key. -/
def insertGroup {α : Type} (same : V → V → Bool) (key : List V) (row : α) :
    List (List V × List α) → List (List V × List α)
  | [] => [(key, [row])]
  | (k, rows) :: groups =>
    if k.length = key.length ∧ (k.zip key).all (fun p => same p.1 p.2) then
      (k, rows ++ [row]) :: groups
    else (k, rows) :: insertGroup same key row groups

section Evaluation

variable (engine : Engine V P E)

def bindCond (table : Name) (bound : Name → Option P) : Cond → Except E (Test V)
  | .trivial => .ok .trivial
  | .isNull col => .ok (.isNull col)
  | .isNotNull col => .ok (.isNotNull col)
  | .compare col op param =>
    match bound param with
    | none => .error engine.undefined
    | some p => (engine.bindValue table col p).map (.compare col op)

def holds (row : Record V) : Test V → Except E Bool
  | .trivial => .ok true
  | .isNull col => .ok (engine.isNull (row col))
  | .isNotNull col => .ok (!engine.isNull (row col))
  | .compare col op v => engine.compare op (row col) v

def passes (row : Record V) : List (Test V) → Except E Bool
  | [] => .ok true
  | test :: tests => do
    if ← holds engine row test then passes row tests else .ok false

def filterRows (tests : List (Test V)) : List (Record V) → Except E (List (Record V))
  | [] => .ok []
  | row :: rows => do
    let passed ← passes engine row tests
    let rest ← filterRows tests rows
    .ok (if passed then row :: rest else rest)

def scalar (row : Record V) : Expr → Except E V
  | .column name => .ok (row name)
  | .minutes later earlier => engine.minutes (row later) (row earlier)
  | .truncated unit col => engine.truncate unit (row col)
  | _ => .error engine.undefined

/-- The value of an expression for a group. One that is no aggregate is a key of the group,
and has its value at every row. -/
def overGroup (rows : List (Record V)) : Expr → Except E V
  | .countAll => .ok (engine.count rows.length)
  | .aggregate fn col => engine.aggregate fn (rows.map fun row => row col)
  | .average arg => do engine.aggregate "avg".toList (← rows.mapM fun row => scalar engine row arg)
  | .median arg => do engine.median (← rows.mapM fun row => scalar engine row arg)
  | e =>
    match rows with
    | [] => .error engine.undefined
    | row :: _ => scalar engine row e

def project (value : Expr → Except E V) (outs : List (Name × Expr)) : Except E (Output V) :=
  outs.mapM fun p => (value p.2).map fun v => (p.1, v)

/-- A name to group by is a column of the table or else a label. -/
def keyExpr (columns : List Name) (outs : List (Name × Expr)) (name : Name) : Except E Expr :=
  if columns.contains name then .ok (.column name)
  else (outs.lookup name).elim (.error engine.undefined) .ok

def groupRows (keys : List Expr) (rows : List (Record V)) : Except E (List (List (Record V))) := do
  let keyed ← rows.mapM fun row => (keys.mapM (scalar engine row)).map fun key => (key, row)
  .ok ((keyed.foldl (fun groups p => insertGroup engine.same p.1 p.2 groups) []).map Prod.snd)

def results (columns : List Name) (q : Select) (rows : List (Record V)) :
    Except E (List (Output V)) :=
  let outs := outputs columns q.items
  if q.groupBy = [] then
    if q.aggregates = [] then rows.mapM fun row => project (scalar engine row) outs
    else (project (overGroup engine rows) outs).map fun row => [row]
  else do
    let keys ← q.groupBy.mapM (keyExpr engine columns outs)
    let groups ← groupRows engine keys rows
    groups.mapM fun group => project (overGroup engine group) outs

/-- What the statement returns over a table with these columns and rows. -/
def eval (columns : List Name) (q : Select) (bound : Name → Option P) (rows : List (Record V)) :
    Except E (List (Output V)) :=
  if q.columns.all columns.contains then do
    let tests ← q.conds.mapM (bindCond engine q.table bound)
    let kept ← filterRows engine tests rows
    let results ← results engine columns q kept
    let results ← q.order.elim (.ok results) fun o => engine.arrange o results
    q.limit.elim (.ok results) fun n => engine.cut n results
  else .error engine.undefined

end Evaluation

/-- All columns of a row. -/
theorem project_all (engine : Engine V P E) (columns : List Name) (label : Option Name)
    (row : Record V) : project (scalar engine row) (outputs columns [(.all, label)]) =
      .ok (columns.map fun c => (c, row c)) := by
  have houts : outputs columns [(.all, label)] = columns.map fun c => (c, .column c) := by
    simp only [outputs, List.flatMap_cons, List.flatMap_nil, List.append_nil, expandItem]
  rw [houts, project, List.mapM_map]
  apply mapM_ok_map
  intro c _
  rfl

/-! ### Columns that are read -/

/-- A change of rows that leaves the columns of `S` alone. -/
def Preserves (S : List Name) (f : Record V → Record V) : Prop := ∀ row, ∀ c ∈ S, f row c = row c

section Preserves

variable {engine : Engine V P E} {S : List Name} {f : Record V → Record V} (hf : Preserves S f)
include hf

theorem holds_preserves {test : Test V} (h : ∀ c ∈ test.columns, c ∈ S) (row : Record V) :
    holds engine (f row) test = holds engine row test := by
  cases test with
  | trivial => rfl
  | isNull col => simp only [holds, hf row col (h col (by simp [Test.columns]))]
  | isNotNull col => simp only [holds, hf row col (h col (by simp [Test.columns]))]
  | compare col op v => simp only [holds, hf row col (h col (by simp [Test.columns]))]

theorem passes_preserves {tests : List (Test V)} (h : ∀ test ∈ tests, ∀ c ∈ test.columns, c ∈ S)
    (row : Record V) : passes engine (f row) tests = passes engine row tests := by
  induction tests with
  | nil => rfl
  | cons test tests ih =>
    obtain ⟨htest, htests⟩ := List.forall_mem_cons.mp h
    simp only [passes, holds_preserves hf htest, ih htests]

theorem filterRows_map {tests : List (Test V)} (h : ∀ test ∈ tests, ∀ c ∈ test.columns, c ∈ S)
    (rows : List (Record V)) :
    filterRows engine tests (rows.map f) = (filterRows engine tests rows).map (List.map f) := by
  induction rows with
  | nil => rfl
  | cons row rows ih =>
    simp only [List.map_cons, filterRows, passes_preserves hf h, ih]
    cases passes engine row tests with
    | error e => rfl
    | ok passed =>
      cases filterRows engine tests rows with
      | error e => rfl
      | ok rest => cases passed <;> rfl

theorem scalar_preserves {e : Expr} (h : ∀ c ∈ e.columns, c ∈ S) (row : Record V) :
    scalar engine (f row) e = scalar engine row e := by
  cases e with
  | column name => simp only [scalar, hf row name (h name (by simp [Expr.columns]))]
  | minutes later earlier =>
    simp only [scalar, hf row later (h later (by simp [Expr.columns])),
      hf row earlier (h earlier (by simp [Expr.columns]))]
  | truncated unit col => simp only [scalar, hf row col (h col (by simp [Expr.columns]))]
  | _ => rfl

theorem mapM_scalar_map {e : Expr} (h : ∀ c ∈ e.columns, c ∈ S) (rows : List (Record V)) :
    (rows.map f).mapM (fun row => scalar engine row e) =
      rows.mapM fun row => scalar engine row e := by
  rw [List.mapM_map]
  exact congrArg (rows.mapM ·) (funext (scalar_preserves hf h))

theorem overGroup_map {e : Expr} (h : ∀ c ∈ e.columns, c ∈ S) (rows : List (Record V)) :
    overGroup engine (rows.map f) e = overGroup engine rows e := by
  have hhead : ∀ e : Expr, (∀ c ∈ e.columns, c ∈ S) →
      (match rows.map f with
        | [] => .error engine.undefined
        | row :: _ => scalar engine row e) =
      (match rows with
        | [] => .error engine.undefined
        | row :: _ => scalar engine row e : Except E V) := by
    intro e he
    cases rows with
    | nil => rfl
    | cons row rows => exact scalar_preserves hf he row
  cases e with
  | countAll => simp only [overGroup, List.length_map]
  | aggregate fn col =>
    have hcol : (rows.map f).map (fun row => row col) = rows.map fun row => row col := by
      rw [List.map_map]
      apply List.map_congr_left
      intro row _
      exact hf row col (h col (by simp [Expr.columns]))
    simp only [overGroup, hcol]
  | average arg => simp only [overGroup, mapM_scalar_map hf (e := arg) h]
  | median arg => simp only [overGroup, mapM_scalar_map hf (e := arg) h]
  | column name => exact hhead _ h
  | all => exact hhead _ h
  | minutes later earlier => exact hhead _ h
  | truncated unit col => exact hhead _ h

theorem project_overGroup_map {outs : List (Name × Expr)} (h : ∀ p ∈ outs, ∀ c ∈ p.2.columns, c ∈ S)
    (rows : List (Record V)) :
    project (overGroup engine (rows.map f)) outs = project (overGroup engine rows) outs := by
  apply mapM_congr
  intro p hp
  rw [overGroup_map hf (h p hp)]

theorem project_scalar_preserves {outs : List (Name × Expr)}
    (h : ∀ p ∈ outs, ∀ c ∈ p.2.columns, c ∈ S) (row : Record V) :
    project (scalar engine (f row)) outs = project (scalar engine row) outs := by
  apply mapM_congr
  intro p hp
  rw [scalar_preserves hf (h p hp)]

theorem mapM_key_preserves {keys : List Expr} (h : ∀ e ∈ keys, ∀ c ∈ e.columns, c ∈ S)
    (row : Record V) : keys.mapM (scalar engine (f row)) = keys.mapM (scalar engine row) := by
  apply mapM_congr
  intro e he
  exact scalar_preserves hf (h e he) row

omit hf in
theorem insertGroup_map (key : List V) (row : Record V)
    (groups : List (List V × List (Record V))) :
    insertGroup engine.same key (f row) (groups.map (Prod.map id (List.map f))) =
      (insertGroup engine.same key row groups).map (Prod.map id (List.map f)) := by
  induction groups with
  | nil => rfl
  | cons g groups ih =>
    obtain ⟨k, rows⟩ := g
    simp only [List.map_cons, Prod.map_apply, id_eq, insertGroup]
    split_ifs with hsame
    · simp only [List.map_cons, Prod.map_apply, id_eq, List.map_append, List.map_nil]
    · simp only [List.map_cons, Prod.map_apply, id_eq, ih]

omit hf in
theorem foldl_insertGroup_map (keyed : List (List V × Record V))
    (groups : List (List V × List (Record V))) :
    (keyed.map (Prod.map id f)).foldl (fun gs p => insertGroup engine.same p.1 p.2 gs)
        (groups.map (Prod.map id (List.map f))) =
      (keyed.foldl (fun gs p => insertGroup engine.same p.1 p.2 gs) groups).map
        (Prod.map id (List.map f)) := by
  induction keyed generalizing groups with
  | nil => rfl
  | cons p keyed ih =>
    simp only [List.map_cons, List.foldl_cons, Prod.map_fst, Prod.map_snd, id_eq, insertGroup_map,
      ih]

theorem keyed_map {keys : List Expr} (h : ∀ e ∈ keys, ∀ c ∈ e.columns, c ∈ S)
    (rows : List (Record V)) :
    (rows.map f).mapM (fun row => (keys.mapM (scalar engine row)).map fun key => (key, row)) =
      (rows.mapM fun row => (keys.mapM (scalar engine row)).map fun key => (key, row)).map
        (List.map (Prod.map id f)) := by
  induction rows with
  | nil => rfl
  | cons row rows ih =>
    rw [List.map_cons, List.mapM_cons, List.mapM_cons, ih, mapM_key_preserves hf h]
    cases keys.mapM (scalar engine row) with
    | error e => rfl
    | ok key =>
      cases rows.mapM fun row => (keys.mapM (scalar engine row)).map fun key => (key, row) with
      | error e => rfl
      | ok keyed => rfl

theorem groupRows_map {keys : List Expr} (h : ∀ e ∈ keys, ∀ c ∈ e.columns, c ∈ S)
    (rows : List (Record V)) :
    groupRows engine keys (rows.map f) =
      (groupRows engine keys rows).map (List.map (List.map f)) := by
  simp only [groupRows, keyed_map hf h]
  cases rows.mapM fun row => (keys.mapM (scalar engine row)).map fun key => (key, row) with
  | error e => rfl
  | ok keyed =>
    have hfold := @foldl_insertGroup_map V P E engine f keyed []
    rw [List.map_nil] at hfold
    simp only [Except.map, bind, Except.bind, hfold, List.map_map]
    rfl

theorem mapM_project_map {outs : List (Name × Expr)} (h : ∀ p ∈ outs, ∀ c ∈ p.2.columns, c ∈ S)
    (groups : List (List (Record V))) :
    (groups.map (List.map f)).mapM (fun group => project (overGroup engine group) outs) =
      groups.mapM fun group => project (overGroup engine group) outs := by
  rw [List.mapM_map]
  exact congrArg (groups.mapM ·) (funext (project_overGroup_map hf h))

end Preserves

theorem bindCond_columns {engine : Engine V P E} {table : Name} {bound : Name → Option P}
    {cond : Cond} {test : Test V} (h : bindCond engine table bound cond = .ok test) :
    test.columns = cond.columns := by
  cases cond with
  | trivial => cases h; rfl
  | isNull col => cases h; rfl
  | isNotNull col => cases h; rfl
  | compare col op param =>
    cases hbound : bound param with
    | none =>
      simp only [bindCond, hbound] at h
      cases h
    | some p =>
      simp only [bindCond, hbound] at h
      cases hvalue : engine.bindValue table col p with
      | error e =>
        rw [hvalue] at h
        cases h
      | ok v =>
        rw [hvalue] at h
        cases h
        rfl

/-- What a statement over a table with these columns reads is among `S`. -/
structure Reads (columns : List Name) (q : Select) (S : List Name) : Prop where
  named : ∀ c ∈ q.columns, c ∈ S
  keys : ∀ g ∈ q.groupBy, g ∈ columns → g ∈ S
  all : ∀ p ∈ q.items, p.1 = .all → ∀ c ∈ columns, c ∈ S

section Reads

variable {columns : List Name} {q : Select} {S : List Name} (h : Reads columns q S)
include h

theorem Reads.outputs : ∀ p ∈ outputs columns q.items, ∀ c ∈ p.2.columns, c ∈ S := by
  intro p hp c hc
  obtain ⟨⟨e, label⟩, hitem, hp⟩ := List.mem_flatMap.mp hp
  by_cases hall : e = .all
  · subst hall
    obtain ⟨col, hcol, rfl⟩ := List.mem_map.mp hp
    obtain rfl : c = col := List.mem_singleton.mp hc
    exact h.all _ hitem rfl c hcol
  · have hexpand : expandItem columns (e, label) = [(label.getD e.label, e)] := by
      cases e <;> first | rfl | exact absurd rfl hall
    rw [hexpand] at hp
    obtain rfl := List.mem_singleton.mp hp
    exact h.named c (List.mem_append_left _ (List.mem_flatMap_of_mem hitem hc))

theorem Reads.tests {engine : Engine V P E} {bound : Name → Option P} {tests : List (Test V)}
    (htests : q.conds.mapM (bindCond engine q.table bound) = .ok tests) :
    ∀ test ∈ tests, ∀ c ∈ test.columns, c ∈ S := by
  intro test htest c hc
  obtain ⟨cond, hcond, hbind⟩ := exists_of_forall₂_right (mapM_eq_ok.mp htests) htest
  rw [bindCond_columns hbind] at hc
  exact h.named c (List.mem_append_right _ (List.mem_flatMap_of_mem hcond hc))

theorem Reads.keyExprs {engine : Engine V P E} {keys : List Expr}
    (hkeys : q.groupBy.mapM (keyExpr engine columns (Sql.outputs columns q.items)) = .ok keys) :
    ∀ e ∈ keys, ∀ c ∈ e.columns, c ∈ S := by
  intro e he c hc
  obtain ⟨name, hname, hexpr⟩ := exists_of_forall₂_right (mapM_eq_ok.mp hkeys) he
  unfold keyExpr at hexpr
  split_ifs at hexpr with hcolumn
  · cases hexpr
    obtain rfl : c = name := List.mem_singleton.mp hc
    exact h.keys c hname (List.contains_iff_mem.mp hcolumn)
  · cases hlookup : (Sql.outputs columns q.items).lookup name with
    | none =>
      rw [hlookup] at hexpr
      cases hexpr
    | some e' =>
      rw [hlookup] at hexpr
      cases hexpr
      obtain ⟨before, after, hsplit, -⟩ := List.lookup_eq_some_iff.mp hlookup
      apply h.outputs (name, e) _ c hc
      rw [hsplit]
      simp

theorem results_map (engine : Engine V P E) {f : Record V → Record V} (hf : Preserves S f)
    (rows : List (Record V)) :
    results engine columns q (rows.map f) = results engine columns q rows := by
  have houts := h.outputs
  unfold results
  split_ifs
  · rw [List.mapM_map]
    exact congrArg (rows.mapM ·) (funext (project_scalar_preserves hf houts))
  · simp only [project_overGroup_map hf houts]
  · cases hkeys : q.groupBy.mapM (keyExpr engine columns (Sql.outputs columns q.items)) with
    | error e =>
      simp only [hkeys]
      rfl
    | ok keys =>
      simp only [hkeys, bind, Except.bind, groupRows_map hf (h.keyExprs hkeys)]
      cases groupRows engine keys rows with
      | error e => rfl
      | ok groups => exact mapM_project_map hf houts groups

theorem eval_map (engine : Engine V P E) (bound : Name → Option P) {f : Record V → Record V}
    (hf : Preserves S f) (rows : List (Record V)) :
    eval engine columns q bound (rows.map f) = eval engine columns q bound rows := by
  unfold eval
  split_ifs
  · cases htests : q.conds.mapM (bindCond engine q.table bound) with
    | error e => rfl
    | ok tests =>
      simp only [bind, Except.bind, filterRows_map hf (h.tests htests)]
      cases filterRows engine tests rows with
      | error e => rfl
      | ok kept => simp only [Except.map, results_map h engine hf]
  · rfl

end Reads

/-- Two rows that have the same values in the columns of `S`. -/
def AgreeOn (S : List Name) (row row' : Record V) : Prop := ∀ c ∈ S, row c = row' c

/-- The columns a statement does not read have no influence on what it returns. -/
theorem eval_congr (engine : Engine V P E) {columns : List Name} {q : Select} {S : List Name}
    (h : Reads columns q S) (bound : Name → Option P) {rows rows' : List (Record V)}
    (hrows : List.Forall₂ (AgreeOn S) rows rows') :
    eval engine columns q bound rows = eval engine columns q bound rows' := by
  -- Both tables become equal when the other columns are overwritten with one value.
  let f : Record V → Record V := fun row c => if c ∈ S then row c else engine.count 0
  have hf : Preserves S f := fun row c hc => if_pos hc
  have hmap : rows.map f = rows'.map f := by
    induction hrows with
    | nil => rfl
    | cons hrow _ ih =>
      rw [List.map_cons, List.map_cons, ih]
      congr 1
      funext c
      by_cases hc : c ∈ S
      · simp only [f, if_pos hc, hrow c hc]
      · simp only [f, if_neg hc]
  rw [← eval_map h engine bound hf rows, hmap, eval_map h engine bound hf rows']

end GroundedOps.Sql
