import GroundedOps.McpServer.DrillDown
import GroundedOps.Security.Schema

/-!
# What the description promises

A caller that has read the description knows which calls pass the checks: the description is
neither more generous nor stricter than the tools.
-/

namespace GroundedOps.McpServer

open Python Security

variable {F D N : Type} {cal : Calendar F D N}

/-- What the description says about a call. -/
def Offered (description : Json F) : Call F → Prop
  | .aggregate table groupBy aggFn column filters start stop _ =>
    ∃ entry, described description table = some entry ∧
      Lists (member "aggregate_functions".toList description) aggFn ∧
      (∀ g ∈ groupBy, Lists (member "group_by_columns".toList entry) g) ∧
      (∀ k ∈ (filters.getD .empty).keys, Lists (member "filter_columns".toList entry) k) ∧
      (aggFn ≠ count → Lists (member "numeric_columns".toList entry) (column.getD [])) ∧
      (start.isSome ∨ stop.isSome → ∃ col, member "time_column".toList entry = some (.str col))
  | .timeseries _ _ granularity _ _ _ =>
    Lists (member "granularities".toList description) granularity
  | .record table _ => ∃ entry, described description table = some entry
  | .queryMetric metric .. => metric ∈ allowedMetrics

/-- The bounds are dates. -/
def Dated (cal : Calendar F D N) (bound : Option Text) : Prop :=
  ∀ v ∈ bound, (cal.fromisoformat v).isSome

/-- The conditions that the description does not mention. -/
def WithinBounds (cal : Calendar F D N) : Call F → Prop
  | .aggregate _ groupBy _ _ filters start stop _ =>
    groupBy.length ≤ maxGroupBy ∧ (filters.getD .empty).items.length ≤ maxFilters ∧
      Dated cal start ∧ Dated cal stop
  | .timeseries _ _ _ start stop _ => Dated cal start ∧ Dated cal stop
  | .record .. => True
  | .queryMetric _ _ _ start stop => Dated cal start ∧ Dated cal stop

/-! ### The checks one by one -/

theorem parseDt_ok_iff (v : Text) : (∃ dt, parseDt cal v = .ok dt) ↔ (cal.fromisoformat v).isSome := by
  unfold parseDt
  cases cal.fromisoformat v with
  | none => simp
  | some dt => simp

theorem bindTime_ok_iff (c : Clauses F D) (cond name : Text) (bound : Option Text) :
    (∃ c', bindTime cal c cond name bound = .ok c') ↔ Dated cal bound := by
  cases bound with
  | none => simp [bindTime, Dated]
  | some v =>
    rw [bindTime, exists_bind_ok_iff (parseDt_ok_iff v) fun _ => exists_pure_ok _]
    simp [Dated]

/-- Bounds need a time column, and they are read. -/
theorem timeClause_ok_iff {table : Text} {p : TablePolicy} (hp : policy table = .ok p)
    (start stop : Option Text) (c : Clauses F D) :
    (∃ c', timeClause cal table start stop c = .ok c') ↔
      (start.isSome ∨ stop.isSome → ∃ col, p.timeColumn = some col) ∧
        Dated cal start ∧ Dated cal stop := by
  unfold timeClause
  by_cases hnone : start = none ∧ stop = none
  · obtain ⟨rfl, rfl⟩ := hnone
    simp [Dated]
  · have hsome : start.isSome ∨ stop.isSome := by
      cases start <;> cases stop <;> simp_all
    have hcheck : ¬ (start.isNone && stop.isNone) = true := by
      cases start <;> cases stop <;> simp_all
    rw [if_neg hcheck, hp, ok_bind]
    cases p.timeColumn with
    | none =>
      constructor
      · rintro ⟨c', hc'⟩
        cases hc'
      · intro h
        obtain ⟨col, hcol⟩ := h.1 hsome
        cases hcol
    | some col =>
      rw [exists_bind_ok_iff (bindTime_ok_iff c _ _ start) fun d => bindTime_ok_iff d _ _ stop]
      simp

theorem validateAgg_ok_iff (aggFn : Text) :
    (∃ a, validateAgg aggFn = .ok a) ↔ aggFn ∈ allowedAgg := by
  unfold validateAgg
  split_ifs with h <;> simp [h]

theorem validateNumericColumn_ok_iff {table : Text} {p : TablePolicy} (hp : policy table = .ok p)
    (column : Text) :
    (∃ a, validateNumericColumn table column = .ok a) ↔ column ∈ p.numericColumns := by
  rw [validateNumericColumn, hp, ok_bind]
  split_ifs with h
  · exact iff_of_true ⟨_, rfl⟩ h
  · apply iff_of_false _ h
    rintro ⟨a, ha⟩
    cases ha

/-- Only a count needs no numeric column. -/
theorem aggExpr_ok_iff {table : Text} {p : TablePolicy} (hp : policy table = .ok p) (aggFn : Text)
    (column : Option Text) :
    (∃ e, aggExpr table aggFn column = .ok e) ↔
      (aggFn ≠ count → column.getD [] ∈ p.numericColumns) := by
  unfold aggExpr
  split_ifs with hcount
  · exact iff_of_true ⟨_, rfl⟩ fun h => absurd hcount h
  · have hne : aggFn ≠ count := hcount
    rw [exists_bind_ok_iff (validateNumericColumn_ok_iff hp _) fun _ => exists_pure_ok _]
    simp [hne]

theorem require_ok_iff (ok : Bool) (message : Text) :
    (∃ u, require ok message = .ok u) ↔ ok = true := by
  simp only [require_eq_ok, exists_const]

theorem validateFilterKeys_ok_iff {table : Text} {p : TablePolicy} (hp : policy table = .ok p)
    (keys : List Text) :
    (∃ u, validateFilterKeys table keys = .ok u) ↔ ∀ k ∈ keys, k ∈ p.filterColumns := by
  simp only [validateFilterKeys_eq_ok hp, exists_const]

/-! ### The checks of a call -/

theorem aggregateStatement_ok_iff {table : Text} {p : TablePolicy} (hp : policy table = .ok p)
    (groupBy : List Text) (aggFn : Text) (column : Option Text)
    (filters : Option (Dict Text (Json F))) (start stop : Option Text) (cap : ℤ) :
    (∃ st, aggregateStatement cal table groupBy aggFn column filters start stop cap = .ok st) ↔
      groupBy.length ≤ maxGroupBy ∧ (filters.getD .empty).items.length ≤ maxFilters ∧
        aggFn ∈ allowedAgg ∧ (∀ g ∈ groupBy, g ∈ p.groupBy) ∧
        (∀ k ∈ (filters.getD .empty).keys, k ∈ p.filterColumns) ∧
        (aggFn ≠ count → column.getD [] ∈ p.numericColumns) ∧
        (start.isSome ∨ stop.isSome → ∃ col, p.timeColumn = some col) ∧
          Dated cal start ∧ Dated cal stop := by
  have hpolicy : (∃ q, policy table = .ok q) ↔ True := iff_of_true ⟨p, hp⟩ trivial
  rw [aggregateStatement, exists_bind_ok_iff (require_ok_iff _ _) fun _ =>
    exists_bind_ok_iff (require_ok_iff _ _) fun _ =>
    exists_bind_ok_iff hpolicy fun _ =>
    exists_bind_ok_iff (validateAgg_ok_iff aggFn) fun _ =>
    exists_bind_ok_iff (validateGroupBy_eq_ok hp) fun _ =>
    exists_bind_ok_iff (validateFilterKeys_ok_iff hp _) fun _ =>
    exists_bind_ok_iff (aggExpr_ok_iff hp aggFn column) fun _ =>
    exists_bind_ok_iff (timeClause_ok_iff hp start stop _) fun _ => exists_pure_ok _]
  simp only [decide_eq_true_eq, true_and, and_true]

/-- A table without a policy is refused before anything else is read of the description. -/
theorem not_aggregateStatement {table : Text} (hp : ∀ p, policy table ≠ .ok p)
    {groupBy : List Text} {aggFn : Text} {column : Option Text}
    {filters : Option (Dict Text (Json F))} {start stop : Option Text} {cap : ℤ} :
    ¬ ∃ st, aggregateStatement cal table groupBy aggFn column filters start stop cap = .ok st := by
  rintro ⟨st, hst⟩
  obtain ⟨_, -, hst⟩ := bind_eq_ok.mp hst
  obtain ⟨_, -, hst⟩ := bind_eq_ok.mp hst
  obtain ⟨p, hpolicy, -⟩ := bind_eq_ok.mp hst
  exact hp p hpolicy

theorem recordStatement_ok_iff (table recordId : Text) :
    (∃ st, (recordStatement table recordId : Except Exn (Statement F D)) = .ok st) ↔
      ∃ p, policy table = .ok p := by
  rw [recordStatement, exists_bind_ok]
  constructor
  · intro h
    obtain ⟨p, hp, -⟩ := h
    exact ⟨p, hp⟩
  · intro h
    obtain ⟨p, hp⟩ := h
    exact ⟨p, hp, exists_pure_ok _ |>.mpr trivial⟩

/-- The description decides which calls pass the checks, up to their sizes and dates. -/
theorem schema_offers_accepted (cal : Calendar F D N) (call : Call F) :
    (∃ st, call.statement cal = .ok st) ↔ Offered schema call ∧ WithinBounds cal call := by
  cases call with
  | aggregate table groupBy aggFn column filters start stop cap =>
    simp only [Call.statement, Offered, WithinBounds, described_eq_some]
    by_cases hp : ∃ p, policy table = .ok p
    · obtain ⟨p, hp⟩ := hp
      rw [aggregateStatement_ok_iff hp]
      have hagg : Lists (member "aggregate_functions".toList (schema : Json F)) aggFn ↔
          aggFn ∈ allowedAgg := lists_sortedNames
      constructor
      · rintro ⟨hsize, hsize', hfn, hgroupBy, hkeys, hcolumn, htime, hstart, hstop⟩
        refine ⟨⟨_, ⟨p, hp, rfl⟩, hagg.mpr hfn, ?_, ?_, ?_, ?_⟩, hsize, hsize', hstart, hstop⟩
        · exact fun g hg => (lists_groupBy p g).mpr (hgroupBy g hg)
        · exact fun k hk => (lists_filterColumns p k).mpr (hkeys k hk)
        · exact fun hne => (lists_numericColumns p _).mpr (hcolumn hne)
        · intro hbounds
          obtain ⟨col, hcol⟩ := htime hbounds
          exact ⟨col, (timeColumn_described p col).mpr hcol⟩
      · rintro ⟨⟨entry, ⟨p', hp', rfl⟩, hfn, hgroupBy, hkeys, hcolumn, htime⟩, hsize, hsize',
          hstart, hstop⟩
        cases hp.symm.trans hp'
        refine ⟨hsize, hsize', hagg.mp hfn, ?_, ?_, ?_, ?_, hstart, hstop⟩
        · exact fun g hg => (lists_groupBy p g).mp (hgroupBy g hg)
        · exact fun k hk => (lists_filterColumns p k).mp (hkeys k hk)
        · exact fun hne => (lists_numericColumns p _).mp (hcolumn hne)
        · intro hbounds
          obtain ⟨col, hcol⟩ := htime hbounds
          exact ⟨col, (timeColumn_described p col).mp hcol⟩
    · apply iff_of_false
      · exact not_aggregateStatement fun p h => hp ⟨p, h⟩
      · rintro ⟨⟨entry, ⟨p, h, -⟩, -⟩, -⟩
        exact hp ⟨p, h⟩
  | queryMetric metric severity service start stop =>
    simp only [Call.statement, Offered, WithinBounds]
    rw [queryMetricStatement, exists_bind_ok_iff (require_ok_iff _ _) fun _ =>
      exists_bind_ok_iff (timeClause_ok_iff policy_incidents start stop _) fun _ =>
      exists_pure_ok _]
    simp [incidentsPolicy]
  | timeseries metricName service granularity start stop cap =>
    simp only [Call.statement, Offered, WithinBounds]
    have hgranularity : (∃ g, validateGranularity granularity = .ok g) ↔
        granularity ∈ allowedGranularity := by
      unfold validateGranularity
      split_ifs with h <;> simp [h]
    rw [timeseriesStatement, exists_bind_ok_iff hgranularity fun _ =>
      exists_bind_ok_iff (timeClause_ok_iff policy_metricsDaily start stop _) fun _ =>
      exists_pure_ok _]
    have hlists : Lists (member "granularities".toList (schema : Json F)) granularity ↔
        granularity ∈ allowedGranularity := lists_sortedNames
    rw [hlists]
    simp [metricsDailyPolicy]
  | record table recordId =>
    simp only [Call.statement, Offered, WithinBounds, and_true, described_eq_some]
    rw [recordStatement_ok_iff]
    constructor
    · intro h
      obtain ⟨p, hp⟩ := h
      exact ⟨tableSchema p, p, hp, rfl⟩
    · intro h
      obtain ⟨entry, p, hp, -⟩ := h
      exact ⟨p, hp⟩

end GroundedOps.McpServer
