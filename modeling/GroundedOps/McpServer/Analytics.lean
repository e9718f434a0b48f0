import GroundedOps.Library.Dict
import GroundedOps.Python.Json
import GroundedOps.Security.Whitelist

/-!
# The analytics queries

Every tool checks the identifiers of its arguments, writes one select statement and
hands it to the session together with the bound values. The session remembers the
statements it was given; the database answers as a function of them. `D` stands for
the datetimes and `N` for the decimals of the driver.
-/

namespace GroundedOps.McpServer

open Python Security

variable {F D N : Type}

/-- A value bound to a placeholder. -/
inductive Param (F D : Type)
  | value (v : Json F)
  | datetime (d : D)

structure Statement (F D : Type) where
  sql : Text
  params : Dict Text (Param F D)

/-- A value of a result row. -/
inductive Cell (F D N : Type)
  | value (v : Json F)
  | decimal (x : N)
  | datetime (d : D)

abbrev Row (F D N : Type) := Dict Text (Cell F D N)

/-- The conversions of datetimes and decimals. -/
structure Calendar (F D N : Type) where
  fromisoformat : Text → Option D
  hasTz : D → Bool
  replaceUtc : D → D
  isoformat : D → Text
  floatOfDecimal : N → F

abbrev AnalyticsM (F D : Type) := EStateM Exn (List (Statement F D))

def maxGroupBy : ℕ := 3
def maxFilters : ℕ := 8

def avgResolutionMinutes : Text := "avg_resolution_minutes".toList
def p50ResolutionMinutes : Text := "p50_resolution_minutes".toList
def incidentCount : Text := "incident_count".toList
def unresolvedCount : Text := "unresolved_count".toList

def allowedMetrics : List Text :=
  [avgResolutionMinutes, p50ResolutionMinutes, incidentCount, unresolvedCount]

section Statements

variable (cal : Calendar F D N)

def parseDt (value : Text) : Except Exn D :=
  match cal.fromisoformat value with
  | none => .error (.toolError ("invalid datetime '".toList ++ value ++
      "', expected ISO 8601".toList))
  | some dt => .ok (if cal.hasTz dt then dt else cal.replaceUtc dt)

/-- The conditions of a statement under construction, and the values bound so far. -/
structure Clauses (F D : Type) where
  conds : List Text := []
  params : Dict Text (Param F D) := .empty

def Clauses.bind (c : Clauses F D) (cond name : Text) (value : Param F D) : Clauses F D :=
  ⟨c.conds ++ [cond], c.params.set name value⟩

/-- Adds the conditions of an optional text argument. -/
def Clauses.bindText (c : Clauses F D) (cond name : Text) : Option Text → Clauses F D
  | none => c
  | some value => c.bind cond name (.value (.str value))

def bindTime (c : Clauses F D) (cond name : Text) : Option Text → Except Exn (Clauses F D)
  | none => .ok c
  | some value => do
    let dt ← parseDt cal value
    return c.bind cond name (.datetime dt)

def timeClause (table : Text) (start stop : Option Text) (c : Clauses F D) :
    Except Exn (Clauses F D) :=
  if start.isNone && stop.isNone then .ok c
  else do
    let p ← policy table
    match p.timeColumn with
    | none =>
      throw (.toolError ("table '".toList ++ table ++ "' has no time column to filter on".toList))
    | some timeColumn =>
      let c ← bindTime cal c (timeColumn ++ " >= :start".toList) "start".toList start
      bindTime cal c (timeColumn ++ " <= :end".toList) "end".toList stop

def require (ok : Bool) (message : Text) : Except Exn Unit :=
  if ok then .ok () else .error (.toolError message)

def tooMany (what : Text) (bound : ℕ) : Text :=
  "too many ".toList ++ what ++ " (max ".toList ++ str bound ++ ")".toList

/-- The conditions of the filters; the values are bound as `v0`, `v1` and so on. -/
def filterClauses (filters : Dict Text (Json F)) : Clauses F D :=
  filters.items.zipIdx.foldl
    (fun c p => c.bind (p.1.1 ++ " = :v".toList ++ str p.2) ('v' :: str p.2) (.value p.1.2)) {}

def aggExpr (table aggFn : Text) (column : Option Text) : Except Exn Text :=
  if aggFn = "count".toList then .ok "count(*)".toList
  else do
    let _ ← validateNumericColumn table (column.getD [])
    return aggFn ++ "(".toList ++ column.getD "None".toList ++ ")".toList

def aggregateSql (table : Text) (groupBy : List Text) (aggExpr : Text) (conds : List Text)
    (cap : ℤ) : Text :=
  "SELECT ".toList ++ join ", ".toList (groupBy ++ [aggExpr ++ " AS agg_value".toList]) ++
    " FROM ".toList ++ table ++
    (if conds.isEmpty then [] else " WHERE ".toList ++ join " AND ".toList conds) ++
    (if groupBy.isEmpty then [] else " GROUP BY ".toList ++ join ", ".toList groupBy) ++
    " ORDER BY agg_value DESC NULLS LAST LIMIT ".toList ++ strInt cap

def aggregateStatement (table : Text) (groupBy : List Text) (aggFn : Text) (column : Option Text)
    (filters : Option (Dict Text (Json F))) (start stop : Option Text) (cap : ℤ) :
    Except Exn (Statement F D) := do
  let filters := filters.getD .empty
  require (groupBy.length ≤ maxGroupBy) (tooMany "group_by columns".toList maxGroupBy)
  require (filters.items.length ≤ maxFilters) (tooMany "filters".toList maxFilters)
  let _ ← policy table
  let _ ← validateAgg aggFn
  let _ ← validateGroupBy table groupBy
  validateFilterKeys table filters.keys
  let expr ← aggExpr table aggFn column
  let c ← timeClause cal table start stop (filterClauses filters)
  return ⟨aggregateSql table groupBy expr c.conds cap, c.params⟩

def resolution : Text := "extract(epoch from (resolved_at - opened_at)) / 60.0".toList

def metricSql (metric clause : Text) : Text :=
  if metric = avgResolutionMinutes then
    "SELECT avg(".toList ++ resolution ++
      ") AS value FROM incidents WHERE resolved_at IS NOT NULL AND ".toList ++ clause
  else if metric = p50ResolutionMinutes then
    "SELECT percentile_cont(0.5) WITHIN GROUP (ORDER BY ".toList ++ resolution ++
      ") AS value FROM incidents WHERE resolved_at IS NOT NULL AND ".toList ++ clause
  else if metric = unresolvedCount then
    "SELECT count(*) AS value FROM incidents WHERE resolved_at IS NULL AND ".toList ++ clause
  else "SELECT count(*) AS value FROM incidents WHERE ".toList ++ clause

def queryMetricStatement (metric : Text) (severity service start stop : Option Text) :
    Except Exn (Statement F D) := do
  require (metric ∈ allowedMetrics) ("metric '".toList ++ metric ++
    "' is not allowed (allowed: ".toList ++ sortedRepr allowedMetrics ++ ")".toList)
  let c : Clauses F D := { conds := ["1=1".toList] }
  let c := c.bindText "severity = :sev".toList "sev".toList severity
  let c := c.bindText "service = :svc".toList "svc".toList service
  let c ← timeClause cal incidents start stop c
  return ⟨metricSql metric (join " AND ".toList c.conds), c.params⟩

def timeseriesSql (granularity : Text) (conds : List Text) (cap : ℤ) : Text :=
  "SELECT date_trunc('".toList ++ granularity ++
    "', date) AS bucket, avg(value) AS value FROM metrics_daily WHERE ".toList ++
    join " AND ".toList conds ++ " GROUP BY bucket ORDER BY bucket LIMIT ".toList ++ strInt cap

def timeseriesStatement (metricName : Text) (service : Option Text) (granularity : Text)
    (start stop : Option Text) (cap : ℤ) : Except Exn (Statement F D) := do
  let _ ← validateGranularity granularity
  let c : Clauses F D :=
    { conds := ["metric_name = :metric".toList]
      params := Dict.empty.set "metric".toList (.value (.str metricName)) }
  let c := c.bindText "service = :svc".toList "svc".toList service
  let c ← timeClause cal metricsDaily start stop c
  return ⟨timeseriesSql granularity c.conds cap, c.params⟩

def recordStatement (table recordId : Text) : Except Exn (Statement F D) := do
  let _ ← policy table
  return ⟨"SELECT * FROM ".toList ++ table ++ " WHERE id = :id LIMIT 1".toList,
    Dict.empty.set "id".toList (.value (.str recordId))⟩

end Statements

section Results

variable (py : Interpreter F) (cal : Calendar F D N)

def jsonable : Cell F D N → Json F
  | .value v => v
  | .decimal x => .float (cal.floatOfDecimal x)
  | .datetime d => .str (cal.isoformat d)

def rowToJson (row : Row F D N) : Json F := .obj (row.items.map fun p => (p.1, jsonable cal p.2))

/-- `float` of a cell; there is no conversion from a datetime. -/
def toFloat : Cell F D N → Except Exn F
  | .value v => v.toFloat py
  | .decimal x => .ok (cal.floatOfDecimal x)
  | .datetime _ => .error .typeError

/-- Attribute access on a row. -/
def column (row : Row F D N) (name : Text) : Except Exn (Cell F D N) :=
  (row.get? name).elim (.error (.other "AttributeError".toList)) .ok

def optText : Option Text → Json F
  | none => .null
  | some s => .str s

def metricResult (metric : Text) (severity service start stop : Option Text)
    (rows : List (Row F D N)) : Except Exn (Json F) := do
  let cell ← match rows with
    | [] => .ok (.value .null)
    | row :: _ => column row "value".toList
  let value ← match cell with
    | .value .null => .ok .null
    | cell => (toFloat py cal cell).map .float
  return .obj
    [("metric".toList, .str metric),
      ("filters".toList, .obj [("severity".toList, optText severity),
        ("service".toList, optText service), ("start".toList, optText start),
        ("end".toList, optText stop)]),
      ("value".toList, value)]

def timeseriesRow (row : Row F D N) : Except Exn (Json F) := do
  let bucket ← column row "bucket".toList
  let value ← toFloat py cal (← column row "value".toList)
  return .obj [("bucket".toList, jsonable cal bucket), ("value".toList, .float value)]

def recordResult (rows : List (Row F D N)) : Json F :=
  match rows with
  | [] => .null
  | row :: _ => rowToJson cal row

end Results

section Tools

variable (py : Interpreter F) (cal : Calendar F D N)
  (db : List (Statement F D) → Except Exn (List (Row F D N)))

/-- `session.execute` -/
def execute (st : Statement F D) : AnalyticsM F D (List (Row F D N)) := fun executed =>
  match db (executed ++ [st]) with
  | .ok rows => .ok rows (executed ++ [st])
  | .error e => .error e (executed ++ [st])

def ofExcept {α : Type} : Except Exn α → AnalyticsM F D α
  | .ok a => pure a
  | .error e => throw e

/-- What all tools do: write the statement, execute it, convert the rows. -/
def query (statement : Except Exn (Statement F D))
    (convert : List (Row F D N) → Except Exn (Json F)) : AnalyticsM F D (Json F) := do
  let st ← ofExcept statement
  let rows ← execute db st
  ofExcept (convert rows)

def runAggregate (table : Text) (groupBy : List Text) (aggFn : Text) (column : Option Text)
    (filters : Option (Dict Text (Json F))) (start stop : Option Text) (cap : ℤ) :
    AnalyticsM F D (Json F) :=
  query db (aggregateStatement cal table groupBy aggFn column filters start stop cap)
    fun rows => .ok (.arr (rows.map (rowToJson cal)))

def runQueryMetric (metric : Text) (severity service start stop : Option Text) :
    AnalyticsM F D (Json F) :=
  query db (queryMetricStatement cal metric severity service start stop)
    (metricResult py cal metric severity service start stop)

def runTimeseries (metricName : Text) (service : Option Text) (granularity : Text)
    (start stop : Option Text) (cap : ℤ) : AnalyticsM F D (Json F) :=
  query db (timeseriesStatement cal metricName service granularity start stop cap)
    fun rows => (rows.mapM (timeseriesRow py cal)).map .arr

def getRecord (table recordId : Text) : AnalyticsM F D (Json F) :=
  query db (recordStatement table recordId) fun rows => .ok (recordResult cal rows)

end Tools

end GroundedOps.McpServer
