import GroundedOps.Python.Text

/-!
# The structured tables

The tables behind the analytics tools, with the columns and constraints the database
enforces.
-/

namespace GroundedOps.Db

open Python

inductive ColumnType
  | string
  | integer
  | float
  | timestamp
  deriving DecidableEq, Repr

structure Column where
  name : Text
  type : ColumnType
  nullable : Bool := false
  deriving DecidableEq, Repr

structure Table where
  columns : List Column
  /-- Columns that hold one of a few texts. -/
  checks : List (Text × List Text) := []
  /-- The primary key and the unique constraints. -/
  keys : List (List Text) := [["id".toList]]
  /-- Columns that are null or the id of a row of another table. -/
  foreignKeys : List (Text × Text) := []
  checks_mem : ∀ c ∈ checks, c.1 ∈ columns.map Column.name := by decide
  keys_mem : ∀ key ∈ keys, ∀ c ∈ key, c ∈ columns.map Column.name := by decide
  foreignKeys_mem : ∀ ref ∈ foreignKeys, ref.1 ∈ columns.map Column.name := by decide

def sla : Table where
  columns :=
    [{ name := "id".toList, type := .string },
      { name := "name".toList, type := .string },
      { name := "tier".toList, type := .string },
      { name := "target_resolution_minutes".toList, type := .integer },
      { name := "uptime_target_pct".toList, type := .float }]
  checks := [("tier".toList, ["enterprise".toList, "business".toList, "standard".toList])]

def customer : Table where
  columns :=
    [{ name := "id".toList, type := .string },
      { name := "name".toList, type := .string },
      { name := "plan".toList, type := .string },
      { name := "region".toList, type := .string },
      { name := "sla_id".toList, type := .string },
      { name := "created_at".toList, type := .timestamp }]
  foreignKeys := [("sla_id".toList, "slas".toList)]

def priorities : List Text := ["P1".toList, "P2".toList, "P3".toList, "P4".toList]

def incident : Table where
  columns :=
    [{ name := "id".toList, type := .string },
      { name := "severity".toList, type := .string },
      { name := "service".toList, type := .string },
      { name := "opened_at".toList, type := .timestamp },
      { name := "resolved_at".toList, type := .timestamp, nullable := true },
      { name := "root_cause_category".toList, type := .string, nullable := true },
      { name := "customer_id".toList, type := .string, nullable := true }]
  checks := [("severity".toList, priorities)]
  foreignKeys := [("customer_id".toList, "customers".toList)]

def ticket : Table where
  columns :=
    [{ name := "id".toList, type := .string },
      { name := "title".toList, type := .string },
      { name := "body".toList, type := .string },
      { name := "customer_id".toList, type := .string, nullable := true },
      { name := "priority".toList, type := .string },
      { name := "status".toList, type := .string },
      { name := "created_at".toList, type := .timestamp },
      { name := "resolved_at".toList, type := .timestamp, nullable := true }]
  checks :=
    [("priority".toList, priorities),
      ("status".toList, ["open".toList, "pending".toList, "resolved".toList, "closed".toList])]
  foreignKeys := [("customer_id".toList, "customers".toList)]

def metricDaily : Table where
  columns :=
    [{ name := "id".toList, type := .integer },
      { name := "date".toList, type := .timestamp },
      { name := "service".toList, type := .string },
      { name := "metric_name".toList, type := .string },
      { name := "value".toList, type := .float }]
  keys := [["id".toList], ["date".toList, "service".toList, "metric_name".toList]]

def tickets : Text := "tickets".toList

def models : List (Text × Table) :=
  [("slas".toList, sla), ("customers".toList, customer), ("incidents".toList, incident),
    (tickets, ticket), ("metrics_daily".toList, metricDaily)]

/-- The columns of a table, in the order of its definition. -/
def columnsOf (table : Text) : List Text :=
  (models.lookup table).elim [] fun t => t.columns.map Column.name

end GroundedOps.Db
