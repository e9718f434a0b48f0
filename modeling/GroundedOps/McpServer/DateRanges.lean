import GroundedOps.McpServer.InjectionSafety
import GroundedOps.Python.IsoDates

/-!
# The rows of a date range

A bound of a time range is read as a moment, and a date without a time as the midnight
that begins it. The database compares these moments with the time column of a row. The
range therefore ends with the first moment of its last day.
-/

namespace GroundedOps.McpServer

open Python Security Sql

variable {F N : Type}

/-! ### The predicate -/

/-- The moment in a column of a row. -/
def Row.instant (row : Row F ClockTime N) (col : Text) : Option ℤ :=
  match row.get? col with
  | some (.datetime dt) => dt.instant
  | _ => none

/-- The moment bound to a placeholder. -/
def boundInstant (params : Dict Text (Param F ClockTime)) (name : Text) : Option ℤ :=
  match params.get? name with
  | some (.datetime dt) => dt.instant
  | _ => none

def compareInstants (op : Text) (t bound : ℤ) : Bool :=
  if op = ">=".toList then bound ≤ t
  else if op = "<=".toList then t ≤ bound
  else if op = "=".toList then t = bound
  else false

/-- Whether a condition holds of the moments of a row. -/
def holdsAt (params : Dict Text (Param F ClockTime)) (row : Row F ClockTime N) : Cond → Bool
  | .trivial => true
  | .isNull col => row.instant col = none
  | .isNotNull col => row.instant col ≠ none
  | .compare col op param =>
    match row.instant col, boundInstant params param with
    | some t, some bound => compareInstants op t bound
    | _, _ => false

/-- The conditions of a time range select the row. -/
def selects (table : Text) (st : Statement F ClockTime) (row : Row F ClockTime N) : Bool :=
  (timeConds table true true).all (holdsAt st.params row)

/-- The arguments that become the time clause of a statement. -/
def Call.timeRange : Call F → Option (Text × Option Text × Option Text)
  | .aggregate table _ _ _ _ start stop _ => some (table, start, stop)
  | .queryMetric _ _ _ start stop => some (incidents, start, stop)
  | .timeseries _ _ _ start stop _ => some (metricsDaily, start, stop)
  | .record _ _ => none

/-- The conditions in front of the time clause. -/
def Shape.otherConds : Shape → List Cond
  | .aggregate _ _ _ _ filterKeys _ _ _ => filterConds filterKeys
  | .queryMetric metric severity service _ _ =>
    metricConds metric ++ argumentConds severity service false false
  | .timeseries service _ _ _ _ => seriesConds service false false
  | .record _ => [.compare "id".toList ['='] "id".toList]

/-- The datetimes of the standard library. Of a text with a time in it, only that it is
read somehow matters here. -/
def datetimes (withTime : Text → Option ClockTime) (isoformat : ClockTime → Text)
    (floatOfDecimal : N → F) : Calendar F ClockTime N where
  fromisoformat s :=
    match Date.fromisoformat s with
    | some ordinal => some (.midnight ordinal)
    | none => withTime s
  hasTz dt := dt.utcoffset.isSome
  replaceUtc := ClockTime.replaceUtc
  isoformat := isoformat
  floatOfDecimal := floatOfDecimal

/-! ### The bounds of a statement -/

theorem select_conds {call : Call F} {table start stop : Text}
    (hrange : call.timeRange = some (table, some start, some stop)) :
    call.shape.select.conds = call.shape.otherConds ++ timeConds table true true := by
  have hnone : ∀ table, timeConds table false false = [] := by
    intro table
    unfold timeConds
    split <;> rfl
  cases call with
  | aggregate =>
    cases hrange
    rfl
  | queryMetric =>
    cases hrange
    simp only [Call.shape, Shape.select, metricSelect, Shape.otherConds, argumentConds, hnone,
      Option.isSome_some, List.append_nil, List.append_assoc]
  | timeseries =>
    cases hrange
    simp only [Call.shape, Shape.select, timeseriesSelect, Shape.otherConds, seriesConds, hnone,
      Option.isSome_some, List.append_nil, List.append_assoc]
  | record => cases hrange

section Bounds

variable {D : Type} {cal : Calendar F D N} {table start stop : Text}

/-- The time clause binds both bounds and nothing else. -/
structure Bounded (cal : Calendar F D N) (start stop : Text)
    (params : Dict Text (Param F D)) : Prop where
  start : ∃ dt, parseDt cal start = .ok dt ∧ params.get? "start".toList = some (.datetime dt)
  stop : ∃ dt, parseDt cal stop = .ok dt ∧ params.get? "end".toList = some (.datetime dt)

theorem bindTime_ok {c c' : Clauses F D} {cond name v : Text}
    (h : bindTime cal c cond name (some v) = .ok c') :
    ∃ dt, parseDt cal v = .ok dt ∧ c' = c.bind cond name (.datetime dt) := by
  obtain ⟨dt, hdt, h⟩ := bind_eq_ok.mp h
  cases h
  exact ⟨dt, hdt, rfl⟩

theorem timeClause_bounded {c c' : Clauses F D}
    (h : timeClause cal table (some start) (some stop) c = .ok c') :
    Bounded cal start stop c'.params := by
  unfold timeClause at h
  rw [if_neg (by simp)] at h
  obtain ⟨p, _, h⟩ := bind_eq_ok.mp h
  split at h
  · cases h
  · obtain ⟨c₁, h₁, h₂⟩ := bind_eq_ok.mp h
    obtain ⟨a, ha, rfl⟩ := bindTime_ok h₁
    obtain ⟨b, hb, rfl⟩ := bindTime_ok h₂
    have hne : "start".toList ≠ "end".toList := by decide
    refine ⟨⟨a, ha, ?_⟩, b, hb, ?_⟩
    · simp only [Clauses.bind, Dict.get?_set, if_neg hne, if_true]
    · simp only [Clauses.bind, Dict.get?_set, if_true]

theorem statement_bounded {call : Call F} {st : Statement F D}
    (hrange : call.timeRange = some (table, some start, some stop))
    (hst : call.statement cal = .ok st) : Bounded cal start stop st.params := by
  cases call with
  | aggregate =>
    cases hrange
    simp only [Call.statement, aggregateStatement, bind_eq_ok] at hst
    obtain ⟨_, _, _, _, _, _, _, _, _, _, _, _, _, _, c, hc, hst⟩ := hst
    cases hst
    exact timeClause_bounded hc
  | queryMetric =>
    cases hrange
    simp only [Call.statement, queryMetricStatement, bind_eq_ok] at hst
    obtain ⟨_, _, c, hc, hst⟩ := hst
    cases hst
    exact timeClause_bounded hc
  | timeseries =>
    cases hrange
    simp only [Call.statement, timeseriesStatement, bind_eq_ok] at hst
    obtain ⟨_, _, c, hc, hst⟩ := hst
    cases hst
    exact timeClause_bounded hc
  | record => cases hrange

end Bounds

/-! ### The days of a range -/

variable {withTime : Text → Option ClockTime} {isoformat : ClockTime → Text}
  {floatOfDecimal : N → F} {table start stop : Text} {first last : ℕ}

theorem fromisoformat_date {s : Text} {ordinal : ℕ} (h : Date.fromisoformat s = some ordinal) :
    (datetimes withTime isoformat floatOfDecimal : Calendar F ClockTime N).fromisoformat s =
      some (.midnight ordinal) := by
  simp only [datetimes, h]

/-- A date without a time is naive, so the offset of UTC is put on its midnight. -/
theorem parseDt_date {s : Text} {ordinal : ℕ} (h : Date.fromisoformat s = some ordinal) :
    parseDt (datetimes withTime isoformat floatOfDecimal : Calendar F ClockTime N) s =
      .ok (ClockTime.midnight ordinal).replaceUtc := by
  unfold parseDt
  rw [fromisoformat_date h]
  rfl

theorem boundInstant_of_get? {params : Dict Text (Param F ClockTime)} {name : Text}
    {dt : ClockTime} (h : params.get? name = some (.datetime dt)) :
    boundInstant params name = dt.instant := by
  simp only [boundInstant, h]

theorem boundInstant_date {params : Dict Text (Param F ClockTime)} {name s : Text} {ordinal : ℕ}
    (hs : Date.fromisoformat s = some ordinal)
    (h : ∃ dt, parseDt (datetimes withTime isoformat floatOfDecimal : Calendar F ClockTime N) s =
      .ok dt ∧ params.get? name = some (.datetime dt)) :
    boundInstant params name = some (ClockTime.midnight ordinal).clock := by
  obtain ⟨dt, hdt, hget⟩ := h
  rw [parseDt_date hs] at hdt
  cases hdt
  rw [boundInstant_of_get? hget, ClockTime.instant_replaceUtc]

section Rows

variable {st : Statement F ClockTime} {row : Row F ClockTime N} {col : Text} {t a b : ℤ}
  (hcol : timeColumnOf table = some col) (ht : row.instant col = some t)
include hcol ht

/-- Both bounds of a range are inclusive. -/
theorem selects_iff (ha : boundInstant st.params "start".toList = some a)
    (hb : boundInstant st.params "end".toList = some b) :
    selects table st row = true ↔ a ≤ t ∧ t ≤ b := by
  have hconds : timeConds table true true = [.compare col ">=".toList "start".toList,
      .compare col "<=".toList "end".toList] := by
    simp only [timeConds, hcol]
    rfl
  have hge : compareInstants ">=".toList t a = decide (a ≤ t) := rfl
  have hle : compareInstants "<=".toList t b = decide (t ≤ b) := rfl
  unfold selects
  simp only [hconds, List.all_cons, List.all_nil, holdsAt, ht, ha, hb, hge, hle, Bool.and_true,
    Bool.and_eq_true, decide_eq_true_eq]

/-- A range of dates selects the days before its last one, and the midnight of that. -/
theorem selects_dates_iff (hfirst : Date.fromisoformat start = some first)
    (hlast : Date.fromisoformat stop = some last)
    (hst : Bounded (datetimes withTime isoformat floatOfDecimal : Calendar F ClockTime N)
      start stop st.params) :
    selects table st row = true ↔
      first ≤ utcDate t ∧ (utcDate t < last ∨ utcDate t = last ∧ utcTime t = 0) := by
  rw [selects_iff hcol ht (boundInstant_date hfirst hst.start) (boundInstant_date hlast hst.stop),
    midnight_le_iff, le_midnight_iff]

/-- The same for dates of the calendar, which are ordered by year, month and day. -/
theorem selects_calendar_iff {first last d : Date.Civil} (hd : utcDate t = d.toordinal)
    (hst : Bounded (datetimes withTime isoformat floatOfDecimal : Calendar F ClockTime N)
      first.isoformat last.isoformat st.params) :
    selects table st row = true ↔
      first.key ≤ d.key ∧ (d.key < last.key ∨ d.key = last.key ∧ utcTime t = 0) := by
  have hlt : d.toordinal < last.toordinal ↔ d.key < last.key :=
    lt_iff_lt_of_le_iff_le Date.Civil.toordinal_le_toordinal
  have heq : d.toordinal = last.toordinal ↔ d.key = last.key := by
    rw [le_antisymm_iff, le_antisymm_iff, Date.Civil.toordinal_le_toordinal,
      Date.Civil.toordinal_le_toordinal]
  rw [selects_dates_iff hcol ht first.fromisoformat_isoformat last.fromisoformat_isoformat hst, hd,
    Nat.cast_le, Nat.cast_lt, Nat.cast_inj, Date.Civil.toordinal_le_toordinal, hlt, heq]

end Rows

/-- In every statement with a range of dates, the conditions of the range select the rows of
whole days, except those of the last day after midnight; so too where the dates are given by
year, month and day. -/
theorem whole_days_selected_iff {call : Call F}
    (hrange : call.timeRange = some (table, some start, some stop))
    (hfirst : Date.fromisoformat start = some first)
    (hlast : Date.fromisoformat stop = some last) (hle : first ≤ last)
    {st : Statement F ClockTime}
    (hst : call.statement (datetimes withTime isoformat floatOfDecimal : Calendar F ClockTime N) =
      .ok st)
    {row : Row F ClockTime N} {col : Text} {t : ℤ} (hcol : timeColumnOf table = some col)
    (ht : row.instant col = some t) :
    (st.sql = call.shape.select.render ∧
      call.shape.select.conds = call.shape.otherConds ++ timeConds table true true) ∧
      ((selects table st row = true ↔ first ≤ utcDate t ∧ utcDate t ≤ last) ↔
        (utcDate t = last → utcTime t = 0)) ∧
      ∀ a b d : Date.Civil, start = a.isoformat → stop = b.isoformat → utcDate t = d.toordinal →
        ((selects table st row = true ↔ a.key ≤ d.key ∧ d.key ≤ b.key) ↔
          (d.key = b.key → utcTime t = 0)) := by
  have hissued := statement_validates
    (datetimes withTime isoformat floatOfDecimal : Calendar F ClockTime N) call
  rw [hst] at hissued
  refine ⟨⟨hissued.sql, select_conds hrange⟩, ?_, ?_⟩
  · rw [selects_dates_iff hcol ht hfirst hlast (statement_bounded hrange hst)]
    constructor
    · intro h hdate
      have hselected := h.mpr (by omega)
      omega
    · intro h
      omega
  · rintro a b d rfl rfl hd
    have ha : a.toordinal = first :=
      Option.some.inj (a.fromisoformat_isoformat.symm.trans hfirst)
    have hb : b.toordinal = last := Option.some.inj (b.fromisoformat_isoformat.symm.trans hlast)
    have hab : a.key ≤ b.key := Date.Civil.toordinal_le_toordinal.mp (by rwa [ha, hb])
    rw [selects_calendar_iff hcol ht hd (statement_bounded hrange hst)]
    constructor
    · rintro h hdate
      obtain ⟨-, hlt | ⟨-, htime⟩⟩ := h.mpr ⟨hdate ▸ hab, hdate.le⟩
      · exact absurd hdate hlt.ne
      · exact htime
    · intro h
      have hle : d.key ≤ b.key ↔ d.key < b.key ∨ d.key = b.key := le_iff_lt_or_eq
      rw [hle]
      exact and_congr_right fun _ => or_congr_right (and_iff_left_of_imp h)

/-! ### A quarter given by its first and last day -/

/-- A calendar for calls whose bounds are dates and whose results are no datetimes. -/
def dateCalendar : Calendar ℚ ClockTime ℚ := datetimes (fun _ => none) (fun _ => []) id

def quarterCount : Call ℚ :=
  .queryMetric incidentCount none none (some "2026-01-01".toList) (some "2026-03-31".toList)

/-- Noon of the last day of March 2026. -/
def lastNoon : ℤ := 739706 * Datetime.day + 12 * Datetime.hour

def openedRow (t : ℤ) : Row ℚ ClockTime ℚ :=
  Dict.empty.set openedAt (.datetime ⟨t, some 0⟩)

def newYearsDay : Date.Civil := ⟨2026, 1, 1, by decide, by decide, by decide⟩
def lastOfMarch : Date.Civil := ⟨2026, 3, 31, by decide, by decide, by decide⟩

theorem whole_days_selected_quarter :
    ∃ st, quarterCount.statement dateCalendar = .ok st ∧
      ((st.sql = quarterCount.shape.select.render ∧
        quarterCount.shape.select.conds =
          quarterCount.shape.otherConds ++ timeConds incidents true true) ∧
        ((selects incidents st (openedRow lastNoon) = true ↔
            (739617 : ℕ) ≤ utcDate lastNoon ∧ utcDate lastNoon ≤ (739706 : ℕ)) ↔
          (utcDate lastNoon = (739706 : ℕ) → utcTime lastNoon = 0)) ∧
        ((selects incidents st (openedRow lastNoon) = true ↔
            newYearsDay.key ≤ lastOfMarch.key ∧ lastOfMarch.key ≤ lastOfMarch.key) ↔
          (lastOfMarch.key = lastOfMarch.key → utcTime lastNoon = 0))) := by
  have hsome : (quarterCount.statement dateCalendar).toOption.isSome = true := by decide +kernel
  have hcol : timeColumnOf incidents = some openedAt := by decide +kernel
  have hrow : (openedRow lastNoon).instant openedAt = some lastNoon := by decide +kernel
  obtain ⟨st, hst⟩ := exists_ok_of_isSome hsome
  have hfirst : Date.fromisoformat "2026-01-01".toList = some 739617 := by decide +kernel
  have hlast : Date.fromisoformat "2026-03-31".toList = some 739706 := by decide +kernel
  obtain ⟨hissued, hordinals, hdates⟩ :=
    whole_days_selected_iff rfl hfirst hlast (by decide) hst hcol hrow
  exact ⟨st, hst, hissued, hordinals, hdates newYearsDay lastOfMarch lastOfMarch
    (by decide +kernel) (by decide +kernel) (by decide +kernel)⟩

/-- An incident opened on the last day of the quarter is not counted. -/
theorem last_day_not_selected :
    (quarterCount.statement dateCalendar).toOption.map
        (fun st => selects incidents st (openedRow lastNoon)) = some false ∧
      Date.fromisoformat "2026-01-01".toList = some 739617 ∧
      Date.fromisoformat "2026-03-31".toList = some 739706 ∧
      (openedRow lastNoon).instant openedAt = some lastNoon ∧
      739617 ≤ utcDate lastNoon ∧ utcDate lastNoon ≤ 739706 := by
  decide +kernel

end GroundedOps.McpServer
