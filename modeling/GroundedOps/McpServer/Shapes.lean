import GroundedOps.Library.Sql
import GroundedOps.McpServer.Analytics

/-!
# The statements of the analytics tools

A call has a shape: its identifiers, its filter keys, which of its optional arguments
are present and its cap. The shape determines a select statement, and an executing
call executes the text of that statement with exactly its parameters bound.
-/

namespace GroundedOps.McpServer

open Python Security Sql

variable {F D N : Type}

/-- A call of one of the four tools, with all its arguments. -/
inductive Call (F : Type)
  | aggregate (table : Text) (groupBy : List Text) (aggFn : Text) (column : Option Text)
      (filters : Option (Dict Text (Json F))) (start stop : Option Text) (cap : ℤ)
  | queryMetric (metric : Text) (severity service start stop : Option Text)
  | timeseries (metricName : Text) (service : Option Text) (granularity : Text)
      (start stop : Option Text) (cap : ℤ)
  | record (table recordId : Text)

inductive Shape
  | aggregate (table : Text) (groupBy : List Text) (aggFn : Text) (column : Option Text)
      (filterKeys : List Text) (start stop : Bool) (cap : ℤ)
  | queryMetric (metric : Text) (severity service start stop : Bool)
  | timeseries (service : Bool) (granularity : Text) (start stop : Bool) (cap : ℤ)
  | record (table : Text)

namespace Call

def shape : Call F → Shape
  | .aggregate table groupBy aggFn column filters start stop cap =>
    .aggregate table groupBy aggFn column (filters.getD .empty).keys start.isSome stop.isSome cap
  | .queryMetric metric severity service start stop =>
    .queryMetric metric severity.isSome service.isSome start.isSome stop.isSome
  | .timeseries _ service granularity start stop cap =>
    .timeseries service.isSome granularity start.isSome stop.isSome cap
  | .record table _ => .record table

def statement (cal : Calendar F D N) : Call F → Except Exn (Statement F D)
  | .aggregate table groupBy aggFn column filters start stop cap =>
    aggregateStatement cal table groupBy aggFn column filters start stop cap
  | .queryMetric metric severity service start stop =>
    queryMetricStatement cal metric severity service start stop
  | .timeseries metricName service granularity start stop cap =>
    timeseriesStatement cal metricName service granularity start stop cap
  | .record table recordId => recordStatement table recordId

def run (py : Interpreter F) (cal : Calendar F D N)
    (db : List (Statement F D) → Except Exn (List (Row F D N))) :
    Call F → AnalyticsM F D (Json F)
  | .aggregate table groupBy aggFn column filters start stop cap =>
    runAggregate cal db table groupBy aggFn column filters start stop cap
  | .queryMetric metric severity service start stop =>
    runQueryMetric py cal db metric severity service start stop
  | .timeseries metricName service granularity start stop cap =>
    runTimeseries py cal db metricName service granularity start stop cap
  | .record table recordId => getRecord cal db table recordId

end Call

def aggValue : Text := "agg_value".toList
def value : Text := "value".toList
def bucket : Text := "bucket".toList
def date : Text := "date".toList
def openedAt : Text := "opened_at".toList
def resolvedAt : Text := "resolved_at".toList
def aggOrder : Text := "agg_value DESC NULLS LAST".toList

/-- The function of the median, which is not in the list of aggregates. -/
def percentileCont : Text := "percentile_cont".toList

/-- A condition that is there exactly if its argument is. -/
def optional (present : Bool) (col op param : Text) : List Cond :=
  if present then [.compare col op param] else []

def timeColumnOf (table : Text) : Option Text :=
  match policy table with
  | .ok p => p.timeColumn
  | .error _ => none

def timeConds (table : Text) (start stop : Bool) : List Cond :=
  match timeColumnOf table with
  | none => []
  | some col =>
    optional start col ">=".toList "start".toList ++ optional stop col "<=".toList "end".toList

def filterConds (keys : List Text) : List Cond :=
  keys.zipIdx.map fun p => .compare p.1 ['='] ('v' :: str p.2)

def metricExpr (metric : Text) : Expr :=
  if metric = avgResolutionMinutes then .average (.minutes resolvedAt openedAt)
  else if metric = p50ResolutionMinutes then .median (.minutes resolvedAt openedAt)
  else .countAll

def metricConds (metric : Text) : List Cond :=
  if metric = avgResolutionMinutes ∨ metric = p50ResolutionMinutes then [.isNotNull resolvedAt]
  else if metric = unresolvedCount then [.isNull resolvedAt]
  else []

def aggregateSelect (table : Text) (groupBy : List Text) (e : Expr) (conds : List Cond)
    (cap : ℤ) : Select where
  items := groupBy.map (fun g => (Expr.column g, none)) ++ [(e, some aggValue)]
  table := table
  conds := conds
  groupBy := groupBy
  order := some aggOrder
  limit := some (strInt cap)

def metricSelect (e : Expr) (conds : List Cond) : Select where
  items := [(e, some value)]
  table := incidents
  conds := conds

def timeseriesSelect (granularity : Text) (conds : List Cond) (cap : ℤ) : Select where
  items := [(.truncated granularity date, some bucket), (.average (.column value), some value)]
  table := metricsDaily
  conds := conds
  groupBy := [bucket]
  order := some bucket
  limit := some (strInt cap)

def recordSelect (table : Text) : Select where
  items := [(.all, none)]
  table := table
  conds := [.compare "id".toList ['='] "id".toList]
  limit := some ['1']

def aggregateExpr (aggFn : Text) (column : Option Text) : Expr :=
  if aggFn = "count".toList then .countAll else .aggregate aggFn (column.getD [])

/-- The conditions of the arguments of a metric. -/
def argumentConds (severity service start stop : Bool) : List Cond :=
  [.trivial] ++ optional severity "severity".toList ['='] "sev".toList ++
    optional service "service".toList ['='] "svc".toList ++ timeConds incidents start stop

def seriesConds (service start stop : Bool) : List Cond :=
  [.compare "metric_name".toList ['='] "metric".toList] ++
    optional service "service".toList ['='] "svc".toList ++ timeConds metricsDaily start stop

/-- The statement of a shape. -/
def Shape.select : Shape → Select
  | .aggregate table groupBy aggFn column filterKeys start stop cap =>
    aggregateSelect table groupBy (aggregateExpr aggFn column)
      (filterConds filterKeys ++ timeConds table start stop) cap
  | .queryMetric metric severity service start stop =>
    metricSelect (metricExpr metric)
      (metricConds metric ++ argumentConds severity service start stop)
  | .timeseries service granularity start stop cap =>
    timeseriesSelect granularity (seriesConds service start stop) cap
  | .record table => recordSelect table

/-! ### Conditions under construction -/

/-- The conditions written so far are `conds`, and exactly their parameters are bound. -/
structure Represents (conds : List Cond) (c : Clauses F D) : Prop where
  texts : c.conds = conds.map Cond.render
  keys : ∀ n, n ∈ c.params.keys ↔ n ∈ conds.flatMap Cond.params

theorem represents_empty : Represents [] ({} : Clauses F D) := ⟨rfl, by simp⟩

theorem compare_render {col op param suffix : Text}
    (h : suffix = ' ' :: op ++ ' ' :: ':' :: param) :
    col ++ suffix = (Cond.compare col op param).render := by
  rw [h, ← List.append_assoc]
  rfl

theorem parseDt_validates (cal : Calendar F D N) (v : Text) :
    Validates (parseDt cal v) fun _ => True := by
  unfold parseDt
  split
  · exact ⟨_, rfl⟩
  · trivial

section Conditions

variable {conds : List Cond} {c : Clauses F D} (h : Represents conds c) {text col op param : Text}
  (htext : text = (Cond.compare col op param).render)
include h htext

theorem Represents.bind (v : Param F D) :
    Represents (conds ++ [.compare col op param]) (c.bind text param v) where
  texts := by simp [Clauses.bind, h.texts, htext]
  keys n := by
    simp only [Clauses.bind, Dict.mem_keys_set, h.keys n, List.flatMap_append, List.mem_append,
      List.flatMap_cons, List.flatMap_nil, List.append_nil, Cond.params, List.mem_singleton]
    exact or_comm

theorem Represents.bindText (v : Option Text) :
    Represents (conds ++ optional v.isSome col op param) (c.bindText text param v) := by
  cases v with
  | none => simpa [Clauses.bindText, optional] using h
  | some v => exact h.bind htext _

theorem bindTime_validates (cal : Calendar F D N) (v : Option Text) :
    Validates (bindTime cal c text param v)
      (Represents (conds ++ optional v.isSome col op param)) := by
  cases v with
  | none => simpa [bindTime, optional, Validates] using h
  | some v => exact (parseDt_validates cal v).bind fun _ _ _ => h.bind htext _

end Conditions

theorem timeClause_validates (cal : Calendar F D N) (table : Text) (start stop : Option Text)
    {conds : List Cond} {c : Clauses F D} (h : Represents conds c) :
    Validates (timeClause cal table start stop c)
      (Represents (conds ++ timeConds table start.isSome stop.isSome)) := by
  unfold timeClause
  split
  · next hnone =>
    obtain ⟨rfl, rfl⟩ : start = none ∧ stop = none := by simpa using hnone
    have hconds : timeConds table false false = [] := by
      unfold timeConds
      split <;> rfl
    simpa [hconds, Validates] using h
  · refine (policy_validates table).bind fun p hp _ => ?_
    split
    · exact ⟨_, rfl⟩
    · next col hcol =>
      have hconds : ∀ s e, timeConds table s e =
          optional s col ">=".toList "start".toList ++ optional e col "<=".toList "end".toList := by
        intro s e
        simp only [timeConds, timeColumnOf, hp, hcol]
      have hstart : col ++ " >= :start".toList =
          (Cond.compare col ">=".toList "start".toList).render := compare_render (by decide)
      have hstop : col ++ " <= :end".toList =
          (Cond.compare col "<=".toList "end".toList).render := compare_render (by decide)
      refine (bindTime_validates h hstart cal start).bind fun c₁ _ h₁ => ?_
      rw [hconds, ← List.append_assoc]
      exact bindTime_validates h₁ hstop cal stop

theorem filterClauses_represents (filters : Dict Text (Json F)) :
    Represents (filterConds filters.keys) (filterClauses filters : Clauses F D) := by
  have hgen : ∀ (items : List (Text × Json F)) (k : ℕ) (conds : List Cond) (c : Clauses F D),
      Represents conds c →
      Represents (conds ++ ((items.map Prod.fst).zipIdx k).map
          fun p => .compare p.1 ['='] ('v' :: str p.2))
        ((items.zipIdx k).foldl (fun c p => c.bind (p.1.1 ++ " = :v".toList ++ str p.2)
          ('v' :: str p.2) (.value p.1.2)) c) := by
    intro items
    induction items with
    | nil =>
      intro k conds c h
      simpa using h
    | cons item items ih =>
      intro k conds c h
      have htext : item.1 ++ " = :v".toList ++ str k =
          (Cond.compare item.1 ['='] ('v' :: str k)).render := by
        rw [List.append_assoc]
        exact compare_render rfl
      have hrest := ih (k + 1) _ _ (h.bind htext (.value item.2))
      simpa [List.zipIdx_cons] using hrest
  exact hgen filters.items 0 [] {} represents_empty

/-! ### The texts of the statements -/

theorem aggregateSql_render (table : Text) (groupBy : List Text) (e : Expr) (conds : List Cond)
    (cap : ℤ) :
    aggregateSql table groupBy e.render (conds.map Cond.render) cap =
      (aggregateSelect table groupBy e conds cap).render := by
  have hgroupBy : (groupBy.map fun g => (Expr.column g, (none : Option Name))).map
      Select.renderItem = groupBy := by
    simp [Select.renderItem, Expr.render_column, Function.comp_def]
  have hlabel : e.render ++ " AS agg_value".toList = Select.renderItem (e, some aggValue) := by
    have hlit : " AS agg_value".toList = " AS ".toList ++ aggValue := by decide
    rw [hlit, ← List.append_assoc]
    rfl
  have htail : " ORDER BY agg_value DESC NULLS LAST LIMIT ".toList =
      " ORDER BY ".toList ++ aggOrder ++ " LIMIT ".toList := by decide +kernel
  unfold aggregateSql aggregateSelect Select.render Select.renderTail Select.renderItems
    Select.renderConds join
  rw [htail, hlabel, List.map_append, hgroupBy, List.map_cons, List.map_nil, List.isEmpty_map]
  simp only [Option.elim, List.append_assoc]

/-- The text in front of the conditions of the arguments is that of the rest of the statement. -/
theorem metricSelect_render {e : Expr} {conds args : List Cond} (hargs : args ≠ [])
    {head : Text}
    (hhead : head = "SELECT ".toList ++ e.render ++ " AS ".toList ++ value ++ " FROM ".toList ++
      incidents ++ " WHERE ".toList ++ conds.flatMap fun c => c.render ++ " AND ".toList) :
    head ++ " AND ".toList.intercalate (args.map Cond.render) =
      (metricSelect e (conds ++ args)).render := by
  have hconds : (conds.flatMap fun c => c.render ++ " AND ".toList) ++
      " AND ".toList.intercalate (args.map Cond.render) =
        " AND ".toList.intercalate ((conds ++ args).map Cond.render) := by
    clear hhead
    induction conds with
    | nil => rfl
    | cons c conds ih =>
      have hne : (conds ++ args).map Cond.render ≠ [] := by simp [hargs]
      obtain ⟨d, ds, hds⟩ := List.exists_cons_of_ne_nil hne
      rw [List.cons_append, List.map_cons, hds, List.intercalate_cons_cons, ← hds, ← ih]
      simp only [List.flatMap_cons, List.append_assoc]
  have hempty : (conds ++ args).isEmpty = false := by simpa using fun _ => hargs
  have hitem : Select.renderItem (e, some value) = e.render ++ " AS ".toList ++ value := rfl
  rw [hhead, List.append_assoc, hconds]
  unfold metricSelect Select.render Select.renderTail Select.renderItems Select.renderConds
  rw [hempty, List.map_cons, List.map_nil, List.intercalate_singleton, hitem]
  simp only [Bool.false_eq_true, if_false, List.isEmpty_nil, if_true, Option.elim,
    List.append_nil, List.append_assoc]

theorem metricSql_render {metric : Text} {args : List Cond} (hargs : args ≠ []) :
    metricSql metric (join " AND ".toList (args.map Cond.render)) =
      (metricSelect (metricExpr metric) (metricConds metric ++ args)).render := by
  unfold metricSql metricExpr metricConds join
  by_cases havg : metric = avgResolutionMinutes
  · rw [if_pos havg, if_pos havg, if_pos (.inl havg)]
    exact metricSelect_render hargs (by decide +kernel)
  by_cases hp50 : metric = p50ResolutionMinutes
  · rw [if_neg havg, if_pos hp50, if_neg havg, if_pos hp50, if_pos (.inr hp50)]
    exact metricSelect_render hargs (by decide +kernel)
  rw [if_neg havg, if_neg hp50, if_neg havg, if_neg hp50, if_neg (not_or.mpr ⟨havg, hp50⟩)]
  by_cases hunresolved : metric = unresolvedCount
  · rw [if_pos hunresolved, if_pos hunresolved]
    exact metricSelect_render hargs (by decide +kernel)
  · rw [if_neg hunresolved, if_neg hunresolved]
    exact metricSelect_render hargs (by decide +kernel)

theorem timeseriesSql_render (granularity : Text) {conds : List Cond} (hconds : conds ≠ [])
    (cap : ℤ) :
    timeseriesSql granularity (conds.map Cond.render) cap =
      (timeseriesSelect granularity conds cap).render := by
  have hhead : "SELECT date_trunc('".toList = "SELECT ".toList ++ "date_trunc('".toList := by
    decide +kernel
  have hmid : "', date) AS bucket, avg(value) AS value FROM metrics_daily WHERE ".toList =
      "', ".toList ++ date ++ [')'] ++ " AS ".toList ++ bucket ++ ", ".toList ++
        ("avg(".toList ++ value ++ [')'] ++ " AS ".toList ++ value) ++ " FROM ".toList ++
          metricsDaily ++ " WHERE ".toList := by decide +kernel
  have htail : " GROUP BY bucket ORDER BY bucket LIMIT ".toList =
      " GROUP BY ".toList ++ bucket ++ " ORDER BY ".toList ++ bucket ++ " LIMIT ".toList := by
    decide +kernel
  have hempty : conds.isEmpty = false := by simpa using hconds
  unfold timeseriesSql timeseriesSelect Select.render Select.renderTail Select.renderItems
    Select.renderConds join
  rw [hhead, hmid, htail, hempty, List.map_cons, List.map_cons, List.map_nil,
    List.intercalate_cons_cons, List.intercalate_singleton, List.intercalate_singleton]
  simp only [Select.renderItem, Expr.render_truncated, Expr.render_average, Expr.render_column,
    Bool.false_eq_true, if_false, List.isEmpty_cons, Option.elim, List.append_assoc]

theorem recordSql_render (table : Text) :
    "SELECT * FROM ".toList ++ table ++ " WHERE id = :id LIMIT 1".toList =
      (recordSelect table).render := by
  have hhead : "SELECT * FROM ".toList = "SELECT ".toList ++ ['*'] ++ " FROM ".toList := by
    decide +kernel
  have htail : " WHERE id = :id LIMIT 1".toList =
      " WHERE ".toList ++ (Cond.compare "id".toList ['='] "id".toList).render ++
        " LIMIT ".toList ++ ['1'] := by decide +kernel
  unfold recordSelect Select.render Select.renderTail Select.renderItems Select.renderConds
  rw [hhead, htail, List.map_cons, List.map_nil, List.map_cons, List.map_nil,
    List.intercalate_singleton, List.intercalate_singleton]
  simp only [Select.renderItem, Expr.render_all, Bool.false_eq_true, if_false, List.isEmpty_cons,
    List.isEmpty_nil, if_true, Option.elim, List.nil_append, List.append_assoc]

end GroundedOps.McpServer
