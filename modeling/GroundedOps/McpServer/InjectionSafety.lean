import GroundedOps.Library.Program
import GroundedOps.McpServer.Shapes

/-!
# Identifier-injection safety

A call that does not fail its checks executes one statement, that of its shape. All
identifiers of the statement are whitelisted, its placeholders are the parameters it
binds, and no value of the call occurs in it.
-/

namespace GroundedOps.McpServer

open Python Security Sql Program

variable {F D N : Type}

/-- The metric that calls the median. -/
def Shape.isMedian : Shape → Bool
  | .queryMetric metric _ _ _ _ => metric = p50ResolutionMinutes
  | _ => false

/-- The tool that groups by its time bucket. -/
def Shape.isSeries : Shape → Bool
  | .timeseries _ _ _ _ _ => true
  | _ => false

/-- Every identifier of the statement is whitelisted for its table, apart from the median
of the curated metric and the alias of the time bucket. -/
structure Admitted (shape : Shape) : Prop where
  table : ∃ p, policy shape.select.table = .ok p ∧ (∀ c ∈ shape.select.columns, c ∈ p.columns) ∧
    ∀ g ∈ shape.select.groupBy, g ∈ p.groupBy ∨ shape.isSeries = true ∧ g = bucket
  aggregates : ∀ f ∈ shape.select.aggregates,
    f ∈ allowedAgg ∨ shape.isMedian = true ∧ f = percentileCont
  units : ∀ u ∈ shape.select.units, u ∈ allowedGranularity

theorem optional_columns {present : Bool} {col op param c : Text}
    (h : c ∈ (optional present col op param).flatMap Cond.columns) : c = col := by
  cases present with
  | false => simp [optional] at h
  | true => simpa [optional, Cond.columns] using h

theorem timeConds_columns {table : Text} {p : TablePolicy} (hp : policy table = .ok p)
    {start stop : Bool} {c : Text} (h : c ∈ (timeConds table start stop).flatMap Cond.columns) :
    c ∈ p.columns := by
  unfold timeConds timeColumnOf at h
  rw [hp] at h
  split at h
  · simp at h
  · next col hcol =>
    rw [List.flatMap_append, List.mem_append] at h
    obtain rfl := h.elim optional_columns optional_columns
    exact p.time_mem c hcol

theorem filterConds_columns {keys : List Text} {c : Text}
    (h : c ∈ (filterConds keys).flatMap Cond.columns) : c ∈ keys := by
  simp only [filterConds, List.flatMap_map, List.mem_flatMap, Cond.columns, List.mem_singleton] at h
  obtain ⟨q, hq, rfl⟩ := h
  exact List.fst_mem_of_mem_zipIdx hq

theorem policy_incidents : policy incidents = .ok incidentsPolicy := rfl

theorem policy_metricsDaily : policy metricsDaily = .ok metricsDailyPolicy := rfl

theorem allowed_clean : ∀ e ∈ allowed, Clean e.1 ∧ ∀ c ∈ e.2.columns, Clean c := by
  decide +kernel

theorem notMem_numericColumns : ∀ e ∈ allowed, [] ∉ e.2.numericColumns := by decide +kernel

theorem aggExpr_validates {table aggFn : Text} (hagg : aggFn ∈ allowedAgg) (column : Option Text)
    {p : TablePolicy} (hp : policy table = .ok p) :
    Validates (aggExpr table aggFn column) fun text =>
      text = (aggregateExpr aggFn column).render ∧
        (∀ c ∈ (aggregateExpr aggFn column).columns, c ∈ p.columns) ∧
          ∀ f ∈ (aggregateExpr aggFn column).aggregates, f ∈ allowedAgg := by
  unfold aggExpr aggregateExpr
  split
  · next hcount =>
    refine ⟨rfl, by simp [Expr.columns], fun f hf => ?_⟩
    obtain rfl : f = "count".toList := List.mem_singleton.mp hf
    exact hcount ▸ hagg
  · refine (validateNumericColumn_validates table _).bind fun _ _ h => ?_
    obtain ⟨q, hq, hcol⟩ := h
    obtain rfl : q = p := by simpa [hq] using hp
    have hmem := policy_validates table
    rw [hq] at hmem
    cases column with
    | none => exact absurd hcol (notMem_numericColumns _ hmem)
    | some col =>
      refine ⟨?_, fun c hc => ?_, fun f hf => ?_⟩
      · rw [Expr.render_aggregate]
        simp
      · obtain rfl : c = col := List.mem_singleton.mp hc
        exact q.numeric_mem c hcol
      · obtain rfl : f = aggFn := List.mem_singleton.mp hf
        exact hagg

/-- What a call of the shape executes. -/
structure Issued (shape : Shape) (st : Statement F D) : Prop where
  sql : st.sql = shape.select.render
  keys : ∀ n, n ∈ st.params.keys ↔ n ∈ shape.select.params
  admitted : Admitted shape

theorem require_validates (ok : Bool) (message : Text) :
    Validates (require ok message) fun _ => ok = true := by
  cases ok with
  | true => rfl
  | false => exact ⟨_, rfl⟩

theorem aggregateStatement_validates (cal : Calendar F D N) (table : Text) (groupBy : List Text)
    (aggFn : Text) (column : Option Text) (filters : Option (Dict Text (Json F)))
    (start stop : Option Text) (cap : ℤ) :
    Validates (aggregateStatement cal table groupBy aggFn column filters start stop cap)
      (Issued (Call.aggregate table groupBy aggFn column filters start stop cap).shape) := by
  unfold aggregateStatement
  refine (require_validates _ _).bind fun _ _ _ => ?_
  refine (require_validates _ _).bind fun _ _ _ => ?_
  refine (policy_validates table).bind fun p hp _ => ?_
  refine (validateAgg_validates aggFn).bind fun _ _ hagg => ?_
  refine (validateGroupBy_validates table groupBy).bind fun _ _ hgroupBy => ?_
  refine (validateFilterKeys_validates table _).bind fun _ _ hkeys => ?_
  refine (aggExpr_validates hagg column hp).bind fun expr _ hexpr => ?_
  refine (timeClause_validates cal table start stop (filterClauses_represents _)).bind
    fun c _ hc => ?_
  obtain ⟨q, hq, hgroupBy⟩ := hgroupBy
  obtain rfl : p = q := by simpa [hp] using hq
  obtain ⟨q, hq, hkeys⟩ := hkeys
  obtain rfl : p = q := by simpa [hp] using hq
  obtain ⟨rfl, hcolumns, haggregates⟩ := hexpr
  refine ⟨?_, hc.keys, ⟨p, hp, fun col hcol => ?_, fun g hg => .inl (hgroupBy g hg)⟩, ?_, ?_⟩
  · rw [hc.texts]
    exact aggregateSql_render table groupBy _ _ cap
  · simp only [Call.shape, Shape.select, aggregateSelect, Select.columns, List.flatMap_append,
      List.flatMap_map, Expr.columns, List.flatMap_singleton, List.mem_append] at hcol
    rcases hcol with (hcol | hcol) | hcol | hcol
    · exact p.groupBy_mem col (hgroupBy col (by simpa using hcol))
    · exact hcolumns col (by simpa using hcol)
    · exact p.filter_mem col (hkeys col (filterConds_columns hcol))
    · exact timeConds_columns hp hcol
  · intro f hf
    simp only [Call.shape, Shape.select, aggregateSelect, Select.aggregates, List.flatMap_append,
      List.flatMap_map, Expr.aggregates, List.mem_append] at hf
    exact .inl (haggregates f (by simpa using hf))
  · intro u hu
    simp only [Call.shape, Shape.select, aggregateSelect, Select.units, List.flatMap_append,
      List.flatMap_map, Expr.units, List.mem_append] at hu
    unfold aggregateExpr at hu
    split at hu <;> simp [Expr.units] at hu

theorem metricExpr_columns (metric : Text) :
    ∀ c ∈ (metricExpr metric).columns, c ∈ incidentsPolicy.columns := by
  unfold metricExpr
  split_ifs <;> decide

theorem metricExpr_aggregates {metric f : Text} (hf : f ∈ (metricExpr metric).aggregates) :
    f ∈ allowedAgg ∨ metric = p50ResolutionMinutes ∧ f = percentileCont := by
  unfold metricExpr at hf
  split_ifs at hf with havg hp50
  · obtain rfl : f = "avg".toList := List.mem_singleton.mp hf
    exact .inl (by decide)
  · exact .inr ⟨hp50, List.mem_singleton.mp hf⟩
  · obtain rfl : f = "count".toList := List.mem_singleton.mp hf
    exact .inl (by decide)

theorem metricExpr_units (metric : Text) : (metricExpr metric).units = [] := by
  unfold metricExpr
  split_ifs <;> rfl

theorem metricConds_columns (metric : Text) :
    ∀ c ∈ (metricConds metric).flatMap Cond.columns, c ∈ incidentsPolicy.columns := by
  unfold metricConds
  split_ifs <;> decide

theorem argumentConds_columns {severity service start stop : Bool} {c : Text}
    (h : c ∈ (argumentConds severity service start stop).flatMap Cond.columns) :
    c ∈ incidentsPolicy.columns := by
  simp only [argumentConds, List.flatMap_append, List.mem_append] at h
  rcases h with ((h | h) | h) | h
  · exact absurd h (by simp [Cond.columns])
  · exact optional_columns h ▸ (by decide)
  · exact optional_columns h ▸ (by decide)
  · exact timeConds_columns policy_incidents h

theorem seriesConds_columns {service start stop : Bool} {c : Text}
    (h : c ∈ (seriesConds service start stop).flatMap Cond.columns) :
    c ∈ metricsDailyPolicy.columns := by
  simp only [seriesConds, List.flatMap_append, List.mem_append] at h
  rcases h with (h | h) | h
  · obtain rfl : c = "metric_name".toList := List.mem_singleton.mp h
    decide
  · exact optional_columns h ▸ (by decide)
  · exact timeConds_columns policy_metricsDaily h

theorem metric_admitted (metric : Text) (severity service start stop : Bool) :
    Admitted (.queryMetric metric severity service start stop) where
  table := by
    refine ⟨incidentsPolicy, policy_incidents, fun c hc => ?_, fun g hg => absurd hg List.not_mem_nil⟩
    simp only [Shape.select, metricSelect, Select.columns, List.flatMap_append, List.mem_append,
      List.flatMap_cons, List.flatMap_nil, List.append_nil] at hc
    rcases hc with hc | hc | hc
    · exact metricExpr_columns metric c hc
    · exact metricConds_columns metric c hc
    · exact argumentConds_columns hc
  aggregates f hf := by
    simp only [Shape.select, metricSelect, Select.aggregates, List.flatMap_cons, List.flatMap_nil,
      List.append_nil] at hf
    simpa [Shape.isMedian] using metricExpr_aggregates hf
  units u hu := by
    simp only [Shape.select, metricSelect, Select.units, List.flatMap_cons, List.flatMap_nil,
      List.append_nil, metricExpr_units] at hu
    exact absurd hu List.not_mem_nil

theorem queryMetricStatement_validates (cal : Calendar F D N) (metric : Text)
    (severity service start stop : Option Text) :
    Validates (queryMetricStatement cal metric severity service start stop)
      (Issued (Call.queryMetric metric severity service start stop : Call F).shape) := by
  have htrivial : Represents [.trivial] ({ conds := ["1=1".toList] } : Clauses F D) :=
    ⟨rfl, by simp [Cond.params]⟩
  have hsev : "severity = :sev".toList =
      (Cond.compare "severity".toList ['='] "sev".toList).render := by decide
  have hsvc : "service = :svc".toList =
      (Cond.compare "service".toList ['='] "svc".toList).render := by decide
  have hbound := (htrivial.bindText hsev severity).bindText hsvc service
  unfold queryMetricStatement
  refine (require_validates _ _).bind fun _ _ _ => ?_
  refine (timeClause_validates cal incidents start stop hbound).bind fun c _ hc => ?_
  refine ⟨?_, fun n => ?_, metric_admitted _ _ _ _ _⟩
  · rw [hc.texts]
    exact metricSql_render (by simp)
  · rw [hc.keys]
    have hconds : (metricConds metric).flatMap Cond.params = [] := by
      unfold metricConds
      split_ifs <;> rfl
    simp only [Call.shape, Shape.select, metricSelect, Select.params, List.flatMap_append, hconds,
      List.nil_append, argumentConds]

theorem timeseriesStatement_validates (cal : Calendar F D N) (metricName : Text)
    (service : Option Text) (granularity : Text) (start stop : Option Text) (cap : ℤ) :
    Validates (timeseriesStatement cal metricName service granularity start stop cap)
      (Issued (Call.timeseries metricName service granularity start stop cap : Call F).shape) := by
  have hmetric : "metric_name = :metric".toList =
      (Cond.compare "metric_name".toList ['='] "metric".toList).render := by decide
  have hsvc : "service = :svc".toList =
      (Cond.compare "service".toList ['='] "svc".toList).render := by decide
  have hbound := ((represents_empty (F := F) (D := D)).bind hmetric
    (.value (.str metricName))).bindText hsvc service
  unfold timeseriesStatement
  refine (validateGranularity_validates granularity).bind fun _ _ hunit => ?_
  refine (timeClause_validates cal metricsDaily start stop hbound).bind fun c _ hc => ?_
  refine ⟨?_, hc.keys, ⟨metricsDailyPolicy, policy_metricsDaily, fun col hcol => ?_,
    fun g hg => .inr ⟨rfl, List.mem_singleton.mp hg⟩⟩, fun f hf => ?_, fun u hu => ?_⟩
  · rw [hc.texts]
    exact timeseriesSql_render granularity (by simp) cap
  · rcases List.mem_append.mp hcol with hcol | hcol
    · have hitems : ∀ c ∈ [date, value], c ∈ metricsDailyPolicy.columns := by decide
      exact hitems col hcol
    · exact seriesConds_columns hcol
  · obtain rfl : f = "avg".toList := List.mem_singleton.mp hf
    exact .inl (by decide)
  · obtain rfl : u = granularity := List.mem_singleton.mp hu
    exact hunit

theorem recordStatement_validates (table recordId : Text) :
    Validates (recordStatement table recordId : Except Exn (Statement F D))
      (Issued (Call.record table recordId : Call F).shape) := by
  refine (policy_validates table).bind fun p hp hmem => ?_
  have hid : ∀ e ∈ allowed, "id".toList ∈ e.2.columns := by decide +kernel
  refine ⟨recordSql_render table, fun n => ?_, ⟨p, hp, fun c hc => ?_,
    fun g hg => absurd hg List.not_mem_nil⟩, fun f hf => absurd hf List.not_mem_nil,
    fun u hu => absurd hu List.not_mem_nil⟩
  · exact Dict.mem_keys_set.trans (by simp [Call.shape, Shape.select, recordSelect, Select.params,
      Cond.params])
  · obtain rfl : c = "id".toList := List.mem_singleton.mp hc
    exact hid _ hmem

theorem statement_validates (cal : Calendar F D N) (call : Call F) :
    Validates (call.statement cal) (Issued call.shape) := by
  cases call with
  | aggregate => exact aggregateStatement_validates ..
  | queryMetric => exact queryMetricStatement_validates ..
  | timeseries => exact timeseriesStatement_validates ..
  | record => exact recordStatement_validates ..

/-! ### Placeholders -/

theorem isWord_of_mem_str {n : ℕ} {c : Char} (h : c ∈ str n) : isWord c = true := by
  rw [str, Nat.toList_repr] at h
  have hdigit := Nat.isDigit_of_mem_toDigits (by decide) (by decide) h
  simp [isWord, Char.isAlphanum, hdigit]

theorem clean_strInt (n : ℤ) : Clean (strInt n) := by
  have hstr : ∀ k, Clean (str k) := fun k hk => absurd (isWord_of_mem_str hk) (by decide)
  unfold strInt
  split
  · exact clean_cons.mpr ⟨by decide, hstr _⟩
  · exact hstr _

theorem paramName_filter (i : ℕ) : ParamName ('v' :: str i) := by
  refine ⟨by simp, fun c hc => ?_⟩
  rcases List.mem_cons.mp hc with rfl | hc
  · decide
  · exact isWord_of_mem_str hc

/-- Conditions with an operator and a parameter name of the tools. -/
def FramedConds (conds : List Cond) : Prop :=
  (∀ c ∈ conds, ∀ op ∈ c.ops, Clean op) ∧ ∀ n ∈ conds.flatMap Cond.params, ParamName n

theorem FramedConds.append {a b : List Cond} (ha : FramedConds a) (hb : FramedConds b) :
    FramedConds (a ++ b) := by
  refine ⟨fun c hc => ?_, fun n hn => ?_⟩
  · exact (List.mem_append.mp hc).elim (ha.1 c) (hb.1 c)
  · rw [List.flatMap_append] at hn
    exact (List.mem_append.mp hn).elim (ha.2 n) (hb.2 n)

theorem framedConds_singleton {c : Cond} (hop : ∀ op ∈ c.ops, Clean op)
    (hparam : ∀ n ∈ c.params, ParamName n) : FramedConds [c] :=
  ⟨by simpa using hop, by simpa using hparam⟩

theorem framedConds_optional (present : Bool) (col : Text) {op param : Text} (hop : Clean op)
    (hparam : ParamName param) : FramedConds (optional present col op param) := by
  cases present with
  | false => exact ⟨by simp [optional], by simp [optional]⟩
  | true => exact framedConds_singleton (by simpa [Cond.ops]) (by simpa [Cond.params])

theorem framedConds_time (table : Text) (start stop : Bool) :
    FramedConds (timeConds table start stop) := by
  unfold timeConds
  split
  · exact ⟨by simp, by simp⟩
  · exact (framedConds_optional _ _ (by decide) (by decide)).append
      (framedConds_optional _ _ (by decide) (by decide))

theorem framedConds_filter (keys : List Text) : FramedConds (filterConds keys) := by
  refine ⟨fun c hc op hop => ?_, fun n hn => ?_⟩
  · obtain ⟨p, -, rfl⟩ := List.mem_map.mp hc
    obtain rfl : op = ['='] := List.mem_singleton.mp hop
    decide
  · obtain ⟨c, hc, hn⟩ := List.mem_flatMap.mp hn
    obtain ⟨p, -, rfl⟩ := List.mem_map.mp hc
    obtain rfl : n = 'v' :: str p.2 := List.mem_singleton.mp hn
    exact paramName_filter _

theorem framedConds_metric (metric : Text) : FramedConds (metricConds metric) := by
  unfold metricConds FramedConds
  split_ifs <;> simp [Cond.ops, Cond.params]

section Framed

variable {conds : List Cond} (h : FramedConds conds)
include h

theorem aggregateSelect_framed (table : Text) (groupBy : List Text) (e : Expr) (cap : ℤ) :
    (aggregateSelect table groupBy e conds cap).Framed where
  labels p hp l hl := by
    rcases List.mem_append.mp hp with hp | hp
    · obtain ⟨g, -, rfl⟩ := List.mem_map.mp hp
      cases hl
    · obtain rfl := List.mem_singleton.mp hp
      obtain rfl : aggValue = l := by simpa using hl
      decide
  ops := h.1
  params := h.2
  order o ho := by
    obtain rfl : aggOrder = o := by simpa [aggregateSelect] using ho
    decide
  limit n hn := by
    obtain rfl : strInt cap = n := by simpa [aggregateSelect] using hn
    exact clean_strInt cap

theorem metricSelect_framed (e : Expr) : (metricSelect e conds).Framed where
  labels p hp l hl := by
    obtain rfl := List.mem_singleton.mp hp
    obtain rfl : value = l := by simpa using hl
    decide
  ops := h.1
  params := h.2
  order o ho := by cases ho
  limit n hn := by cases hn

theorem timeseriesSelect_framed (granularity : Text) (cap : ℤ) :
    (timeseriesSelect granularity conds cap).Framed where
  labels p hp l hl := by
    have hp : p.2 = some bucket ∨ p.2 = some value := by
      rcases List.mem_pair.mp hp with rfl | rfl
      · exact .inl rfl
      · exact .inr rfl
    rcases hp with hp | hp <;> rw [hp] at hl <;> cases hl <;> decide
  ops := h.1
  params := h.2
  order o ho := by
    obtain rfl : bucket = o := by simpa [timeseriesSelect] using ho
    decide
  limit n hn := by
    obtain rfl : strInt cap = n := by simpa [timeseriesSelect] using hn
    exact clean_strInt cap

end Framed

theorem recordSelect_framed (table : Text) : (recordSelect table).Framed where
  labels p hp l hl := by
    obtain rfl := List.mem_singleton.mp hp
    cases hl
  ops c hc := by
    obtain rfl := List.mem_singleton.mp hc
    decide
  params n hn := by
    obtain rfl : n = "id".toList := List.mem_singleton.mp hn
    decide
  order o ho := by cases ho
  limit n hn := by
    obtain rfl : ['1'] = n := by simpa [recordSelect] using hn
    decide

theorem Shape.select_framed (shape : Shape) : shape.select.Framed := by
  have hopt : ∀ present col, FramedConds (optional present col ['='] "sev".toList) ∧
      FramedConds (optional present col ['='] "svc".toList) := fun present col =>
    ⟨framedConds_optional present col (by decide) (by decide),
      framedConds_optional present col (by decide) (by decide)⟩
  cases shape with
  | aggregate =>
    exact aggregateSelect_framed ((framedConds_filter _).append (framedConds_time _ _ _)) _ _ _ _
  | queryMetric metric severity service start stop =>
    have htrivial : FramedConds [.trivial] :=
      framedConds_singleton (by simp [Cond.ops]) (by simp [Cond.params])
    have hargs : FramedConds (argumentConds severity service start stop) :=
      ((htrivial.append (hopt _ _).1).append (hopt _ _).2).append (framedConds_time incidents _ _)
    exact metricSelect_framed ((framedConds_metric metric).append hargs) _
  | timeseries =>
    have hmetric : FramedConds [.compare "metric_name".toList ['='] "metric".toList] :=
      framedConds_singleton (by decide) (by decide)
    exact timeseriesSelect_framed ((hmetric.append (hopt _ _).2).append
      (framedConds_time metricsDaily _ _)) _ _
  | record table => exact recordSelect_framed table

theorem Admitted.safe {shape : Shape} (h : Admitted shape) : shape.select.Safe := by
  obtain ⟨p, hp, hcolumns, hgroupBy⟩ := h.table
  have hmem := policy_validates shape.select.table
  rw [hp] at hmem
  obtain ⟨htable, hclean⟩ := allowed_clean _ hmem
  have hagg : ∀ f ∈ allowedAgg, Clean f := by decide
  have hunit : ∀ u ∈ allowedGranularity, Clean u := by decide
  refine shape.select_framed.safe htable (fun c hc => hclean c (hcolumns c hc))
    (fun g hg => ?_) (fun f hf => ?_) (fun u hu => hunit u (h.units u hu))
  · rcases hgroupBy g hg with hg | ⟨-, rfl⟩
    · exact hclean g (p.groupBy_mem g hg)
    · decide
  · rcases h.aggregates f hf with hf | ⟨-, rfl⟩
    · exact hagg f hf
    · decide

theorem Issued.placeholders {shape : Shape} {st : Statement F D} (h : Issued shape st) (n : Text) :
    n ∈ placeholders st.sql ↔ n ∈ st.params.keys := by
  rw [h.sql, Select.placeholders_render h.admitted.safe, h.keys]

/-! ### Runs of the tools -/

section Runs

variable (py : Interpreter F) (cal : Calendar F D N)
  (db : List (Statement F D) → Except Exn (List (Row F D N)))

theorem query_final {statement : Except Exn (Statement F D)} {st : Statement F D}
    (h : statement = .ok st) (convert : List (Row F D N) → Except Exn (Json F))
    (log : List (Statement F D)) : final (query db statement convert log) = log ++ [st] := by
  subst h
  have hstatement : (ofExcept (.ok st) : AnalyticsM F D (Statement F D)) log = .ok st log := rfl
  rw [query, run_bind_ok hstatement]
  cases hdb : db (log ++ [st]) with
  | error e =>
    have hexecute : execute db st log = .error e (log ++ [st]) := by simp only [execute, hdb]
    rw [run_bind_error hexecute, final]
  | ok rows =>
    have hexecute : execute db st log = .ok rows (log ++ [st]) := by simp only [execute, hdb]
    rw [run_bind_ok hexecute]
    cases convert rows <;> rfl

/-- The rows are converted in the same way whatever the database is. -/
theorem Call.run_eq_query (call : Call F) : ∃ convert,
    ∀ db : List (Statement F D) → Except Exn (List (Row F D N)),
      call.run py cal db = query db (call.statement cal) convert := by
  cases call with
  | aggregate => exact ⟨_, fun _ => rfl⟩
  | queryMetric => exact ⟨_, fun _ => rfl⟩
  | timeseries => exact ⟨_, fun _ => rfl⟩
  | record => exact ⟨_, fun _ => rfl⟩

/-- What a call does: its checks fail and the session is untouched, or it executes the
statement of its shape. -/
theorem Call.run_cases (call : Call F) (log : List (Statement F D)) :
    (∃ message, call.run py cal db log = .error (.toolError message) log) ∨
      ∃ st, final (call.run py cal db log) = log ++ [st] ∧ Issued call.shape st := by
  obtain ⟨convert, hrun⟩ := call.run_eq_query py cal
  have hvalid := statement_validates cal call
  rw [hrun]
  cases hst : call.statement cal with
  | error e =>
    rw [hst] at hvalid
    obtain ⟨message, rfl⟩ := hvalid
    exact .inl ⟨message, rfl⟩
  | ok st =>
    rw [hst] at hvalid
    exact .inr ⟨st, query_final db rfl convert log, hvalid⟩

end Runs

/-- Every call that does not fail its checks executes one statement over whitelisted
identifiers with exactly its placeholders bound, and calls of one shape execute one text. -/
theorem calls_injectionSafe :
    (∀ (py : Interpreter F) (cal : Calendar F D N)
      (db : List (Statement F D) → Except Exn (List (Row F D N))) (call : Call F)
      (log : List (Statement F D)),
      (∃ message, call.run py cal db log = .error (.toolError message) log) ∨
        ∃ st, final (call.run py cal db log) = log ++ [st] ∧ st.sql = call.shape.select.render ∧
          Admitted call.shape ∧ ∀ n, n ∈ placeholders st.sql ↔ n ∈ st.params.keys) ∧
    ∀ (py py' : Interpreter F) (cal cal' : Calendar F D N)
      (db db' : List (Statement F D) → Except Exn (List (Row F D N))) (call call' : Call F)
      (log log' : List (Statement F D)) (st st' : Statement F D), call.shape = call'.shape →
      final (call.run py cal db log) = log ++ [st] →
      final (call'.run py' cal' db' log') = log' ++ [st'] → st.sql = st'.sql := by
  have hsql : ∀ (py : Interpreter F) (cal : Calendar F D N)
      (db : List (Statement F D) → Except Exn (List (Row F D N))) (call : Call F)
      (log : List (Statement F D)) (st : Statement F D),
      final (call.run py cal db log) = log ++ [st] → st.sql = call.shape.select.render := by
    intro py cal db call log st hst
    rcases call.run_cases py cal db log with ⟨message, herr⟩ | ⟨st₀, hst₀, hissued⟩
    · rw [herr] at hst
      simp [final] at hst
    · obtain rfl : st₀ = st := by simpa [hst₀] using hst
      exact hissued.sql
  refine ⟨fun py cal db call log => ?_, fun py py' cal cal' db db' call call' log log' st st' hshape
    hst hst' => ?_⟩
  · rcases call.run_cases py cal db log with herr | ⟨st, hst, hissued⟩
    · exact .inl herr
    · exact .inr ⟨st, hst, hissued.sql, hissued.admitted, hissued.placeholders⟩
  · rw [hsql py cal db call log st hst, hsql py' cal' db' call' log' st' hst', hshape]

/-! ### The median -/

/-- All identifiers of a statement are whitelisted, without exception. -/
structure Whitelisted (q : Select) : Prop where
  table : ∃ p, policy q.table = .ok p ∧ (∀ c ∈ q.columns, c ∈ p.columns) ∧
    ∀ g ∈ q.groupBy, g ∈ p.groupBy
  aggregates : ∀ f ∈ q.aggregates, f ∈ allowedAgg

theorem whitelisted_expr {e : Expr} {p : TablePolicy} (hp : ∃ table, (table, p) ∈ allowed)
    (hcolumns : ∀ c ∈ e.columns, c ∈ p.columns) (haggregates : ∀ f ∈ e.aggregates, f ∈ allowedAgg)
    (rest : Text) : (e.render ++ rest).take 2 ≠ ['p', 'e'] := by
  have hcol : ∀ entry ∈ allowed, ∀ c ∈ entry.2.columns, 2 ≤ c.length ∧ c.take 2 ≠ ['p', 'e'] := by
    decide +kernel
  have hagg : ∀ f ∈ allowedAgg, 2 ≤ f.length ∧ f.take 2 ≠ ['p', 'e'] := by decide +kernel
  have htake : ∀ s t : Text, 2 ≤ s.length ∧ s.take 2 ≠ ['p', 'e'] → (s ++ t).take 2 ≠ ['p', 'e'] := by
    intro s t ⟨hlen, hs⟩
    rwa [List.take_append_of_le_length hlen]
  obtain ⟨table, hp⟩ := hp
  cases e with
  | column name => exact htake name rest (hcol _ hp name (hcolumns name (by simp [Expr.columns])))
  | all => simp [Expr.render_all]
  | countAll => exact htake _ rest (by decide)
  | aggregate fn col =>
    rw [Expr.render_aggregate, List.append_assoc, List.append_assoc]
    exact htake fn _ (hagg fn (haggregates fn List.mem_cons_self))
  | average arg =>
    rw [Expr.render_average, List.append_assoc, List.append_assoc]
    exact htake _ _ (by decide)
  | median arg =>
    have hmedian : percentileCont ∈ allowedAgg := haggregates percentileCont List.mem_cons_self
    exact absurd hmedian (by decide)
  | minutes later earlier =>
    rw [Expr.render_minutes, List.append_assoc, List.append_assoc, List.append_assoc,
      List.append_assoc]
    exact htake _ _ (by decide)
  | truncated unit col =>
    rw [Expr.render_truncated, List.append_assoc, List.append_assoc, List.append_assoc,
      List.append_assoc]
    exact htake _ _ (by decide)

theorem renderItems_cons (e : Expr) (label : Option Name) (items : List (Expr × Option Name)) :
    ∃ tail, Select.renderItems ((e, label) :: items) = e.render ++ tail := by
  have hitem : ∃ tail, Select.renderItem (e, label) = e.render ++ tail := by
    cases label with
    | none => exact ⟨[], (List.append_nil _).symm⟩
    | some l => exact ⟨" AS ".toList ++ l, List.append_assoc _ _ _⟩
  obtain ⟨tail, htail⟩ := hitem
  unfold Select.renderItems
  cases items with
  | nil => exact ⟨tail, by rw [List.map_cons, List.map_nil, List.intercalate_singleton, htail]⟩
  | cons item items =>
    refine ⟨tail ++ (", ".toList ++ Select.renderItems (item :: items)), ?_⟩
    rw [List.map_cons, List.map_cons, List.intercalate_cons_cons, htail, List.append_assoc,
      List.append_assoc]
    rfl

/-- The text of a whitelisted statement does not start with the median. -/
theorem whitelisted_select {q : Select} (h : Whitelisted q) :
    (q.render.drop 7).take 2 ≠ ['p', 'e'] := by
  obtain ⟨p, hp, hcolumns, -⟩ := h.table
  have hmem := policy_validates q.table
  rw [hp] at hmem
  have hdrop : ∃ rest, q.render.drop 7 = Select.renderItems q.items ++ (" FROM ".toList ++ rest) := by
    unfold Select.render
    rw [List.append_assoc, List.append_assoc, List.append_assoc, List.append_assoc,
      List.drop_left' (by decide)]
    exact ⟨_, rfl⟩
  obtain ⟨rest, hdrop⟩ := hdrop
  rw [hdrop]
  cases hitems : q.items with
  | nil => simp [Select.renderItems]
  | cons item items =>
    obtain ⟨e, label⟩ := item
    obtain ⟨tail, htail⟩ := renderItems_cons e label items
    rw [htail, List.append_assoc]
    exact whitelisted_expr ⟨_, hmem⟩
      (fun c hc => hcolumns c (by simp [Select.columns, hitems, hc]))
      (fun f hf => h.aggregates f (by simp [Select.aggregates, hitems, hf])) _

/-- A calendar that reads no datetime. -/
def plainCalendar : Calendar Unit Unit Unit where
  fromisoformat _ := none
  hasTz _ := true
  replaceUtc d := d
  isoformat _ := []
  floatOfDecimal _ := ()

/-- Metric `p50_resolution_minutes` executes a statement that no statement over whitelisted
identifiers only renders to, and a time series is grouped by an alias. -/
theorem median_not_whitelisted :
    (∃ st, final ((Call.queryMetric p50ResolutionMinutes none none none none).run
        plainInterpreter plainCalendar (fun _ => .ok []) []) = [st] ∧
      ¬ ∃ q, Whitelisted q ∧ st.sql = q.render) ∧
    ∃ st, final ((Call.timeseries "error_rate".toList none "day".toList none none 10).run
        plainInterpreter plainCalendar (fun _ => .ok []) []) = [st] ∧
      st.sql = (timeseriesSelect "day".toList (seriesConds false false false) 10).render ∧
      bucket ∈ (timeseriesSelect "day".toList (seriesConds false false false) 10).groupBy ∧
      bucket ∉ metricsDailyPolicy.groupBy := by
  refine ⟨⟨_, rfl, ?_⟩, ⟨_, rfl, ?_, ?_, ?_⟩⟩
  · rintro ⟨q, hq, hsql⟩
    refine whitelisted_select hq ?_
    rw [← hsql]
    decide +kernel
  · decide +kernel
  · decide
  · decide

end GroundedOps.McpServer
