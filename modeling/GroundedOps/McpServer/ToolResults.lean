import GroundedOps.Library.SqlLabels
import GroundedOps.McpServer.GroupCounts
import GroundedOps.McpServer.SearchRecords
import GroundedOps.Security.Schema

/-!
# What the tools return

A tool returns a list, an object or null. Only what the search tool returns has the form of chunk
records: the members of the other results are columns of whitelisted tables and labels that the
tools write themselves.
-/

namespace GroundedOps.McpServer

open Python Security Sql Db

variable {F D N : Type}

/-- No part of the value can be taken for a chunk record, nor for a list of them. -/
inductive Recordless : Json F → Prop
  | null : Recordless .null
  | object {members} : Json.lookup "result".toList members = none → Recordless (.obj members)
  | rows {items} : (∀ members, .obj members ∈ items →
      Json.lookup "chunk_id".toList members = none) → Recordless (.arr items)

/-- The database makes up no rows, and the driver no columns. -/
structure DriverLaws (backend : Backend F D N) : Prop where
  engine : ReturnsRows backend.engine
  mapping : ∀ out row, backend.mapping out = .ok row → row.items.map Prod.fst ⊆ out.map Prod.fst

theorem lookup_eq_none {key : Text} {members : List (Text × Json F)}
    (h : key ∉ members.map Prod.fst) : Json.lookup key members = none := by
  rw [Json.lookup, Option.map_eq_none_iff, List.find?_eq_none]
  intro p hp hkey
  exact h (beq_iff_eq.mp hkey ▸ List.mem_map_of_mem hp)

theorem lookup_rowToJson {cal : Calendar F D N} {row : Row F D N} {key : Text}
    (h : key ∉ row.items.map Prod.fst) :
    Json.lookup key (row.items.map fun p => (p.1, jsonable cal p.2)) = none := by
  apply lookup_eq_none
  rw [List.map_map]
  exact h

theorem recordless_schema : Recordless (schema : Json F) := .object rfl

/-! ### The labels of the statements -/

theorem outputs_append (columns : List Name) (a b : List (Expr × Option Name)) :
    outputs columns (a ++ b) = outputs columns a ++ outputs columns b := List.flatMap_append

theorem outputs_columns (columns groupBy : List Name) :
    outputs columns (groupBy.map fun g => (Expr.column g, none)) =
      groupBy.map fun g => (g, .column g) := by
  rw [outputs, List.flatMap_map, List.map_eq_flatMap]
  rfl

theorem labels_aggregate (columns : List Name) (table : Text) (groupBy : List Text) {e : Expr}
    (he : e ≠ .all) (conds : List Cond) (cap : ℤ) :
    labels columns (aggregateSelect table groupBy e conds cap) = groupBy ++ [aggValue] := by
  have hlast : outputs columns [(e, some aggValue)] = [(aggValue, e)] := by
    cases e with
    | all => exact absurd rfl he
    | _ => rfl
  have hitems : (aggregateSelect table groupBy e conds cap).items =
      groupBy.map (fun g => (Expr.column g, none)) ++ [(e, some aggValue)] := rfl
  rw [labels, hitems, outputs_append, outputs_columns, hlast, List.map_append, List.map_map]
  simp [Function.comp_def]

theorem labels_record (table : Text) (columns : List Name) :
    labels columns (recordSelect table) = columns := by
  have houts : outputs columns (recordSelect table).items =
      columns.map fun c => (c, .column c) := by
    simp only [recordSelect, outputs, List.flatMap_cons, List.flatMap_nil, List.append_nil,
      expandItem]
  rw [labels, houts, List.map_map]
  simp [Function.comp_def]

theorem chunkId_not_grouped :
    ∀ e ∈ allowed, ∀ c ∈ e.2.groupBy, c ≠ "chunk_id".toList := by decide +kernel

theorem result_not_column :
    ∀ e ∈ allowed, ∀ c ∈ columnsOf e.1, c ≠ "result".toList := by decide +kernel

/-! ### The rows of an answer -/

section Answers

variable {backend : Backend F D N} {py : Interpreter F} {cal : Calendar F D N} {s : State F D N}

theorem labels_of_answer (laws : DriverLaws backend) {q : Select} {st : Statement F D}
    {rows : List (Row F D N)} (h : backend.answer s q st = .ok rows) :
    ∀ row ∈ rows, row.items.map Prod.fst ⊆ labels (columnsOf q.table) q := by
  obtain ⟨-, outs, houts, hrows⟩ := answer_eq_ok.mp h
  have hlabels := labels_of_eval laws.engine houts
  have hmapped := mapM_eq_ok.mp hrows
  intro row hrow
  obtain ⟨out, hout, hmapping⟩ := exists_of_mem_forall₂ hmapped hrow
  rw [← hlabels out hout]
  exact laws.mapping out row hmapping

theorem recordless_aggregate (laws : DriverLaws backend) {table : Text} {p : TablePolicy}
    (hp : policy table = .ok p) {groupBy : List Text} (hgroupBy : ∀ g ∈ groupBy, g ∈ p.groupBy)
    {aggFn : Text} {column : Option Text} {conds : List Cond} {cap : ℤ} {st : Statement F D}
    {rows : List (Row F D N)}
    (h : backend.answer s (aggregateSelect table groupBy (aggregateExpr aggFn column) conds cap)
      st = .ok rows) : Recordless (.arr (rows.map (rowToJson cal)) : Json F) := by
  have hmem := policy_validates table
  rw [hp] at hmem
  have hkey : "chunk_id".toList ∉ groupBy ++ [aggValue] := by
    intro hin
    rcases List.mem_append.mp hin with hin | hin
    · exact chunkId_not_grouped _ hmem _ (hgroupBy _ hin) rfl
    · exact absurd (List.mem_singleton.mp hin) (by decide)
  apply Recordless.rows
  intro members hin
  obtain ⟨row, hrow, heq⟩ := List.mem_map.mp hin
  cases heq
  apply lookup_rowToJson
  intro hcontra
  have hlabel := labels_of_answer laws h row hrow hcontra
  rw [labels_aggregate _ table groupBy (aggregateExpr_ne_all aggFn column)] at hlabel
  exact hkey hlabel

theorem recordless_record (laws : DriverLaws backend) {table : Text} {p : TablePolicy}
    (hp : policy table = .ok p) {st : Statement F D} {rows : List (Row F D N)}
    (h : backend.answer s (recordSelect table) st = .ok rows) :
    Recordless (recordResult cal rows : Json F) := by
  have hmem := policy_validates table
  rw [hp] at hmem
  cases rows with
  | nil => exact .null
  | cons row rows =>
    apply Recordless.object
    apply lookup_rowToJson
    intro hcontra
    have hlabel := labels_of_answer laws h row List.mem_cons_self hcontra
    rw [labels_record] at hlabel
    exact result_not_column _ hmem _ hlabel rfl

theorem recordless_metric {metric : Text} {severity service start stop : Option Text}
    {rows : List (Row F D N)} {j : Json F}
    (h : metricResult py cal metric severity service start stop rows = .ok j) : Recordless j := by
  have hvalue : ∃ value, j = .obj
      [("metric".toList, .str metric),
        ("filters".toList, .obj [("severity".toList, optText severity),
          ("service".toList, optText service), ("start".toList, optText start),
          ("end".toList, optText stop)]),
        ("value".toList, value)] := by
    cases rows with
    | nil =>
      cases h
      exact ⟨_, rfl⟩
    | cons row rows =>
      obtain ⟨cell, -, h⟩ := bind_eq_ok.mp h
      dsimp only at h
      split at h
      · cases h
        exact ⟨_, rfl⟩
      · obtain ⟨value, -, h⟩ := bind_eq_ok.mp h
        cases h
        exact ⟨_, rfl⟩
  obtain ⟨value, rfl⟩ := hvalue
  exact .object rfl

theorem recordless_timeseries {rows : List (Row F D N)} {j : Json F}
    (h : (rows.mapM (timeseriesRow py cal)).map .arr = .ok j) : Recordless j := by
  cases hitems : rows.mapM (timeseriesRow py cal) with
  | error e =>
    rw [hitems] at h
    cases h
  | ok items =>
    rw [hitems] at h
    cases h
    apply Recordless.rows
    intro members hin
    obtain ⟨row, -, hrow⟩ := exists_of_mem_forall₂ (mapM_eq_ok.mp hitems) hin
    obtain ⟨bucket, -, hrow⟩ := bind_eq_ok.mp hrow
    obtain ⟨cell, -, hrow⟩ := bind_eq_ok.mp hrow
    obtain ⟨value, -, hrow⟩ := bind_eq_ok.mp hrow
    cases hrow
    rfl

/-- What an analytics tool returns over any state of the database holds no chunk records. -/
theorem recordless_runOn (laws : DriverLaws backend) {call : Call F}
    {log log' : List (Statement F D)} {j : Json F}
    (h : call.runOn backend py cal s log = .ok j log') : Recordless j := by
  cases call with
  | aggregate table groupBy aggFn column filters start stop cap =>
    obtain ⟨st, hst, rows, hrows, rfl, -⟩ := runOn_aggregate_eq_ok.mp h
    have hchecks := hst
    obtain ⟨_, -, hchecks⟩ := bind_eq_ok.mp hchecks
    obtain ⟨_, -, hchecks⟩ := bind_eq_ok.mp hchecks
    obtain ⟨p, hp, hchecks⟩ := bind_eq_ok.mp hchecks
    obtain ⟨_, -, hchecks⟩ := bind_eq_ok.mp hchecks
    obtain ⟨columns, hgroupBy, -⟩ := bind_eq_ok.mp hchecks
    exact recordless_aggregate laws hp ((validateGroupBy_eq_ok hp).mp ⟨columns, hgroupBy⟩) hrows
  | queryMetric metric severity service start stop =>
    obtain ⟨st, -, rows, -, hconvert, -⟩ := query_eq_ok.mp h
    exact recordless_metric hconvert
  | timeseries metricName service granularity start stop cap =>
    obtain ⟨st, -, rows, -, hconvert, -⟩ := query_eq_ok.mp h
    exact recordless_timeseries hconvert
  | record table recordId =>
    obtain ⟨st, hst, rows, hrows, hconvert, -⟩ := query_eq_ok.mp h
    rw [backend.session_append] at hrows
    obtain ⟨p, hp, -⟩ := bind_eq_ok.mp hst
    cases hconvert
    exact recordless_record laws hp hrows

end Answers

end GroundedOps.McpServer
