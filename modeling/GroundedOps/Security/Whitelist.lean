import GroundedOps.Python.Text
import Mathlib.Data.List.Sort

/-!
# The identifier whitelist of the analytics tools

Identifiers cannot be bound as parameters, so the tools check them against these
tables before they put them into a statement. A policy carries the proofs that
everything it admits is a column it lists.
-/

namespace GroundedOps.Security

open Python

def allowedAgg : List Text := ["count".toList, "sum".toList, "avg".toList, "min".toList,
  "max".toList]

def allowedGranularity : List Text := ["day".toList, "week".toList, "month".toList]

structure TablePolicy where
  columns : List Text
  numericColumns : List Text
  groupBy : List Text
  filterColumns : List Text
  timeColumn : Option Text
  numeric_mem : ∀ c ∈ numericColumns, c ∈ columns := by decide
  groupBy_mem : ∀ c ∈ groupBy, c ∈ columns := by decide
  filter_mem : ∀ c ∈ filterColumns, c ∈ columns := by decide
  time_mem : ∀ c ∈ timeColumn, c ∈ columns := by decide

def incidents : Text := "incidents".toList
def metricsDaily : Text := "metrics_daily".toList

def incidentsPolicy : TablePolicy where
  columns := ["id".toList, "severity".toList, "service".toList, "opened_at".toList,
    "resolved_at".toList, "root_cause_category".toList, "customer_id".toList]
  numericColumns := []
  groupBy := ["severity".toList, "service".toList, "root_cause_category".toList]
  filterColumns := ["severity".toList, "service".toList, "root_cause_category".toList,
    "customer_id".toList]
  timeColumn := some "opened_at".toList

def ticketsPolicy : TablePolicy where
  columns := ["id".toList, "title".toList, "priority".toList, "status".toList,
    "customer_id".toList, "created_at".toList, "resolved_at".toList]
  numericColumns := []
  groupBy := ["priority".toList, "status".toList]
  filterColumns := ["priority".toList, "status".toList, "customer_id".toList]
  timeColumn := some "created_at".toList

def metricsDailyPolicy : TablePolicy where
  columns := ["id".toList, "date".toList, "service".toList, "metric_name".toList,
    "value".toList]
  numericColumns := ["value".toList]
  groupBy := ["service".toList, "metric_name".toList]
  filterColumns := ["service".toList, "metric_name".toList]
  timeColumn := some "date".toList

def customersPolicy : TablePolicy where
  columns := ["id".toList, "name".toList, "plan".toList, "region".toList, "sla_id".toList,
    "created_at".toList]
  numericColumns := []
  groupBy := ["plan".toList, "region".toList]
  filterColumns := ["plan".toList, "region".toList, "sla_id".toList]
  timeColumn := some "created_at".toList

def slasPolicy : TablePolicy where
  columns := ["id".toList, "name".toList, "tier".toList, "target_resolution_minutes".toList,
    "uptime_target_pct".toList]
  numericColumns := ["target_resolution_minutes".toList, "uptime_target_pct".toList]
  groupBy := ["tier".toList]
  filterColumns := ["tier".toList]
  timeColumn := none

def allowed : List (Text × TablePolicy) :=
  [(incidents, incidentsPolicy), ("tickets".toList, ticketsPolicy),
    (metricsDaily, metricsDailyPolicy), ("customers".toList, customersPolicy),
    ("slas".toList, slasPolicy)]

/-- `sorted(names)` as it is written into a message. No listed name needs escapes. -/
def sortedRepr (names : List Text) : Text :=
  let quoted := (names.insertionSort (· ≤ ·)).map fun n => '\'' :: n ++ ['\'']
  '[' :: join ", ".toList quoted ++ [']']

def tableError (table : Text) : Exn :=
  .toolError ("table '".toList ++ table ++ "' is not allowed (whitelisted: ".toList ++
    sortedRepr (allowed.map Prod.fst) ++ ")".toList)

/-- The policy of a whitelisted table. -/
def policy (table : Text) : Except Exn TablePolicy :=
  match allowed.lookup table with
  | some p => .ok p
  | none => .error (tableError table)

def validateAgg (aggFn : Text) : Except Exn Text :=
  if aggFn ∈ allowedAgg then .ok aggFn
  else .error (.toolError ("aggregate '".toList ++ aggFn ++ "' is not allowed (allowed: ".toList ++
    sortedRepr allowedAgg ++ ")".toList))

/-- Checks the names in order and reports the first that is not admitted. -/
def checkAll (admitted : List Text) (message : Text → Text) : List Text → Except Exn Unit
  | [] => .ok ()
  | name :: names =>
    if name ∈ admitted then checkAll admitted message names
    else .error (.toolError (message name))

def groupByMessage (table col : Text) : Text :=
  "group_by '".toList ++ col ++ "' is not allowed on '".toList ++ table ++ "'".toList

def filterMessage (table key : Text) : Text :=
  "filter column '".toList ++ key ++ "' is not allowed on '".toList ++ table ++ "'".toList

def validateGroupBy (table : Text) (columns : List Text) : Except Exn (List Text) := do
  let p ← policy table
  checkAll p.groupBy (groupByMessage table) columns
  return columns

def validateFilterKeys (table : Text) (keys : List Text) : Except Exn Unit := do
  let p ← policy table
  checkAll p.filterColumns (filterMessage table) keys

def validateNumericColumn (table column : Text) : Except Exn Text := do
  let p ← policy table
  if column ∈ p.numericColumns then return column
  else throw (.toolError ("column '".toList ++ column ++
    "' is not an aggregatable numeric column on '".toList ++ table ++ "'".toList))

def validateGranularity (granularity : Text) : Except Exn Text :=
  if granularity ∈ allowedGranularity then .ok granularity
  else .error (.toolError ("granularity '".toList ++ granularity ++
    "' is not allowed (allowed: ".toList ++ sortedRepr allowedGranularity ++ ")".toList))

/-! ### What a check finds -/

/-- A check either finds `Q` or fails with a `ToolError`. -/
def Validates (r : Except Exn α) (Q : α → Prop) : Prop :=
  match r with
  | .ok a => Q a
  | .error e => ∃ message, e = .toolError message

theorem Validates.mono {r : Except Exn α} {P Q : α → Prop} (hr : Validates r P)
    (h : ∀ a, P a → Q a) : Validates r Q := by
  cases r with
  | error e => exact hr
  | ok a => exact h a hr

theorem Validates.bind {r : Except Exn α} {f : α → Except Exn β} {P : α → Prop} {Q : β → Prop}
    (hr : Validates r P) (hf : ∀ a, r = .ok a → P a → Validates (f a) Q) :
    Validates (r >>= f) Q := by
  cases r with
  | error e => exact hr
  | ok a => exact hf a rfl hr

theorem policy_validates (table : Text) :
    Validates (policy table) fun p => (table, p) ∈ allowed := by
  unfold policy
  split
  · next p hp =>
    obtain ⟨before, after, hsplit, -⟩ := List.lookup_eq_some_iff.mp hp
    simp [Validates, hsplit]
  · exact ⟨_, rfl⟩

theorem validateAgg_validates (aggFn : Text) :
    Validates (validateAgg aggFn) fun _ => aggFn ∈ allowedAgg := by
  unfold validateAgg
  split
  · assumption
  · exact ⟨_, rfl⟩

theorem checkAll_validates (admitted : List Text) (message : Text → Text) (names : List Text) :
    Validates (checkAll admitted message names) fun _ => ∀ name ∈ names, name ∈ admitted := by
  induction names with
  | nil => simp [checkAll, Validates]
  | cons name names ih =>
    unfold checkAll
    split
    · next hname => exact ih.mono fun _ h => by simpa [hname] using h
    · exact ⟨_, rfl⟩

theorem validateGroupBy_validates (table : Text) (columns : List Text) :
    Validates (validateGroupBy table columns) fun _ =>
      ∃ p, policy table = .ok p ∧ ∀ c ∈ columns, c ∈ p.groupBy :=
  (policy_validates table).bind fun p hp _ =>
    (checkAll_validates _ _ columns).bind fun _ _ h => ⟨p, hp, h⟩

theorem validateFilterKeys_validates (table : Text) (keys : List Text) :
    Validates (validateFilterKeys table keys) fun _ =>
      ∃ p, policy table = .ok p ∧ ∀ k ∈ keys, k ∈ p.filterColumns := by
  refine (policy_validates table).bind fun p hp _ => ?_
  exact (checkAll_validates _ _ keys).mono fun _ h => ⟨p, hp, h⟩

theorem validateNumericColumn_validates (table column : Text) :
    Validates (validateNumericColumn table column) fun _ =>
      ∃ p, policy table = .ok p ∧ column ∈ p.numericColumns := by
  refine (policy_validates table).bind fun p hp _ => ?_
  split
  · next hcolumn => exact ⟨p, hp, hcolumn⟩
  · exact ⟨_, rfl⟩

theorem validateGranularity_validates (granularity : Text) :
    Validates (validateGranularity granularity) fun _ => granularity ∈ allowedGranularity := by
  unfold validateGranularity
  split
  · assumption
  · exact ⟨_, rfl⟩

end GroundedOps.Security
