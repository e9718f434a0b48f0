import GroundedOps.Python.Datetime
import Mathlib.Data.Prod.Lex

/-!
# Dates in ISO format

A date is its ordinal in the proleptic Gregorian calendar: the first of January of year 1
has the ordinal 1. A clock counts its microseconds from the ordinal 0. It shows the
time of a zone with a fixed offset from UTC, or it is naive and belongs to no zone.
-/

namespace GroundedOps.Python

namespace Date

def isLeap (year : ℕ) : Bool := year % 4 = 0 ∧ (year % 100 ≠ 0 ∨ year % 400 = 0)

def yearDays (year : ℕ) : ℕ := if isLeap year then 366 else 365

def daysInMonth (year month : ℕ) : ℕ :=
  if month = 2 then if isLeap year then 29 else 28
  else if month ∈ [4, 6, 9, 11] then 30
  else 31

def daysBeforeYear (year : ℕ) : ℕ :=
  let y := year - 1
  y * 365 + y / 4 - y / 100 + y / 400

def daysBeforeMonth (year : ℕ) : ℕ → ℕ
  | 0 | 1 => 0
  | month + 2 => daysBeforeMonth year (month + 1) + daysInMonth year (month + 1)

def minYear : ℕ := 1
def maxYear : ℕ := 9999

/-- A date that the constructor accepts. -/
structure Civil where
  year : ℕ
  month : ℕ
  day : ℕ
  year_mem : minYear ≤ year ∧ year ≤ maxYear
  month_mem : 1 ≤ month ∧ month ≤ 12
  day_mem : 1 ≤ day ∧ day ≤ daysInMonth year month

def Civil.toordinal (d : Civil) : ℕ := daysBeforeYear d.year + daysBeforeMonth d.year d.month + d.day

def ofYmd (year month day : ℕ) : Option ℕ :=
  if h : (minYear ≤ year ∧ year ≤ maxYear) ∧ (1 ≤ month ∧ month ≤ 12) ∧
      1 ≤ day ∧ day ≤ daysInMonth year month then
    some (Civil.toordinal ⟨year, month, day, h.1, h.2.1, h.2.2⟩)
  else none

/-- The ordinal of the first of January. -/
def newYear (year : ℕ) : ℕ := daysBeforeYear year + 1

/-- The ordinal of the Monday of the first week, the one with the first Thursday. -/
def isoweek1monday (year : ℕ) : ℕ :=
  let firstweekday := (newYear year + 6) % 7
  newYear year - firstweekday + if firstweekday > 3 then 7 else 0

def isoweeks (year : ℕ) : ℕ :=
  if newYear year % 7 = 4 ∨ newYear year % 7 = 3 ∧ isLeap year then 53 else 52

def maxOrdinal : ℕ := 3652059

def ofIsoweek (year week day : ℕ) : Option ℕ :=
  let ordinal := isoweek1monday year + (week - 1) * 7 + (day - 1)
  if (minYear ≤ year ∧ year ≤ maxYear) ∧ (1 ≤ week ∧ week ≤ isoweeks year) ∧
      (1 ≤ day ∧ day ≤ 7) ∧ ordinal ≤ maxOrdinal then some ordinal
  else none

/-- The number in a field of fixed width. Only the ASCII digits count here. -/
def field (s : Text) : Option ℕ :=
  if s.all Char.isDigit then some (Nat.ofDigitChars 10 s 0) else none

/-- `date.fromisoformat(s)`, with a calendar date or a week date, with dashes or without. -/
def fromisoformat (s : Text) : Option ℕ := do
  let year ← field (s.take 4)
  match s.drop 4 with
  | ['W', w, w'] => ofIsoweek year (← field [w, w']) 1
  | ['-', 'W', w, w'] => ofIsoweek year (← field [w, w']) 1
  | ['W', w, w', d] => ofIsoweek year (← field [w, w']) (← field [d])
  | ['-', 'W', w, w', '-', d] => ofIsoweek year (← field [w, w']) (← field [d])
  | [m, m', d, d'] => ofYmd year (← field [m, m']) (← field [d, d'])
  | ['-', m, m', '-', d, d'] => ofYmd year (← field [m, m']) (← field [d, d'])
  | _ => none

/-- `d.isoformat()` -/
def Civil.isoformat (d : Civil) : Text :=
  pad 4 d.year ++ '-' :: (pad 2 d.month ++ '-' :: pad 2 d.day)

/-! ### Reading a date -/

theorem length_str_le {width n : ℕ} (hpos : 0 < width) (h : n < 10 ^ width) :
    (str n).length ≤ width := by
  rw [str, Nat.toList_repr]
  exact (Nat.length_toDigits_le_iff (by decide) hpos).mpr h

theorem length_pad {width n : ℕ} (hpos : 0 < width) (h : n < 10 ^ width) :
    (pad width n).length = width := by
  have hstr := length_str_le hpos h
  simp only [pad, List.length_append, List.length_replicate]
  omega

theorem field_pad (width n : ℕ) : field (pad width n) = some n := by
  have hdigits : (pad width n).all Char.isDigit = true :=
    List.all_eq_true.mpr fun c hc => isDigit_of_mem_pad hc
  rw [field, if_pos hdigits, pad, Nat.ofDigitChars_append, Nat.ofDigitChars_replicate_zero,
    Nat.mul_zero, str, Nat.toList_repr, Nat.ofDigitChars_ten_toDigits]

theorem Civil.day_le (d : Civil) : d.day ≤ 31 := by
  have h := d.day_mem.2
  unfold daysInMonth at h
  split_ifs at h <;> omega

theorem Civil.fromisoformat_isoformat (d : Civil) :
    fromisoformat d.isoformat = some d.toordinal := by
  have hyear := d.year_mem
  have hmonth := d.month_mem
  have hday := d.day_le
  unfold maxYear at hyear
  have hy : (pad 4 d.year).length = 4 := length_pad (by decide) (by omega)
  obtain ⟨m, m', hm⟩ : ∃ m m', pad 2 d.month = [m, m'] :=
    List.length_eq_two.mp (length_pad (by decide) (by omega))
  obtain ⟨e, e', he⟩ : ∃ e e', pad 2 d.day = [e, e'] :=
    List.length_eq_two.mp (length_pad (by decide) (by omega))
  have hnum : m ≠ 'W' := by
    rintro rfl
    exact notMem_pad (by decide) 2 d.month (hm ▸ List.mem_cons_self)
  have htake : d.isoformat.take 4 = pad 4 d.year := List.take_left' hy
  have hdrop : d.isoformat.drop 4 = ['-', m, m', '-', e, e'] := by
    rw [isoformat, List.drop_left' hy, hm, he]
    rfl
  have hmonthField : field [m, m'] = some d.month := hm ▸ field_pad 2 d.month
  have hdayField : field [e, e'] = some d.day := he ▸ field_pad 2 d.day
  unfold fromisoformat
  rw [htake, hdrop, field_pad]
  simp only [Option.bind_eq_bind, Option.bind_some]
  split
  case h_7 hshape => exact absurd rfl (hshape m m' e e')
  all_goals simp_all [ofYmd, d.year_mem, d.day_mem]

/-! ### The order of the dates -/

theorem daysBeforeYear_succ {year : ℕ} (h : 1 ≤ year) :
    daysBeforeYear (year + 1) = daysBeforeYear year + yearDays year := by
  obtain ⟨y, rfl⟩ := Nat.exists_eq_add_of_le' h
  have hcenturies : y / 100 ≤ y := Nat.div_le_self y 100
  have hfour : 100 ∣ y + 1 → 4 ∣ y + 1 := Nat.dvd_trans (by decide)
  have hhundred : 400 ∣ y + 1 → 100 ∣ y + 1 := Nat.dvd_trans (by decide)
  simp only [daysBeforeYear, yearDays, isLeap, Nat.add_sub_cancel, Nat.succ_div,
    ← Nat.dvd_iff_mod_eq_zero, decide_eq_true_eq]
  generalize y / 4 = fours at *
  generalize y / 100 = hundreds at *
  generalize y / 400 = fourHundreds at *
  split_ifs <;> omega

theorem daysBeforeYear_mono {a b : ℕ} (ha : 1 ≤ a) (hab : a ≤ b) :
    daysBeforeYear a ≤ daysBeforeYear b := by
  induction b, hab using Nat.le_induction with
  | base => exact Nat.le_refl _
  | succ b hb ih =>
    have hyear := daysBeforeYear_succ (ha.trans hb)
    omega

theorem daysBeforeMonth_succ {month : ℕ} (h : 1 ≤ month) (year : ℕ) :
    daysBeforeMonth year (month + 1) = daysBeforeMonth year month + daysInMonth year month := by
  obtain ⟨k, rfl⟩ := Nat.exists_eq_add_of_le' h
  rfl

theorem daysBeforeMonth_mono (year : ℕ) {a b : ℕ} (ha : 1 ≤ a) (hab : a ≤ b) :
    daysBeforeMonth year a ≤ daysBeforeMonth year b := by
  induction b, hab using Nat.le_induction with
  | base => exact Nat.le_refl _
  | succ b hb ih =>
    have hmonth := daysBeforeMonth_succ (ha.trans hb) year
    omega

theorem daysBeforeMonth_year (year : ℕ) : daysBeforeMonth year 13 = yearDays year := by
  unfold yearDays
  by_cases h : isLeap year = true <;> simp [daysBeforeMonth, daysInMonth, h]

namespace Civil

/-- A date lies within its month. -/
theorem day_bounds (d : Civil) :
    daysBeforeMonth d.year d.month + d.day ≤ daysBeforeMonth d.year (d.month + 1) := by
  rw [daysBeforeMonth_succ d.month_mem.1]
  exact Nat.add_le_add_left d.day_mem.2 _

theorem toordinal_le_year (d : Civil) : d.toordinal ≤ daysBeforeYear (d.year + 1) := by
  have hmonth := d.month_mem
  have hend : daysBeforeMonth d.year (d.month + 1) ≤ daysBeforeMonth d.year 13 :=
    daysBeforeMonth_mono d.year (by omega) (by omega)
  rw [daysBeforeYear_succ d.year_mem.1, ← daysBeforeMonth_year, toordinal, Nat.add_assoc]
  exact Nat.add_le_add_left (d.day_bounds.trans hend) _

def key (d : Civil) : ℕ ×ₗ ℕ ×ₗ ℕ := toLex (d.year, toLex (d.month, d.day))

/-- Dates are ordered by year, month and day, and their ordinals in the same way. -/
theorem toordinal_lt_toordinal {a b : Civil} (h : a.key < b.key) : a.toordinal < b.toordinal := by
  have hday := b.day_mem.1
  rcases Prod.Lex.toLex_lt_toLex.mp h with hyear | ⟨hyear, hrest⟩
  · have hmono := daysBeforeYear_mono (by omega) (show a.year + 1 ≤ b.year from hyear)
    have hend := a.toordinal_le_year
    simp only [toordinal] at *
    omega
  · rcases Prod.Lex.toLex_lt_toLex.mp hrest with hmonth | ⟨hmonth, hdays⟩
    · have hmono := daysBeforeMonth_mono a.year (by omega) (show a.month + 1 ≤ b.month from hmonth)
      have hend := a.day_bounds
      simp only [toordinal] at *
      rw [← hyear]
      omega
    · simp only [toordinal] at *
      rw [← hyear, ← hmonth]
      omega

theorem toordinal_le_toordinal {a b : Civil} : a.toordinal ≤ b.toordinal ↔ a.key ≤ b.key := by
  constructor
  · intro h
    by_contra hlt
    exact absurd (toordinal_lt_toordinal (not_le.mp hlt)) (not_lt.mpr h)
  · intro h
    rcases h.lt_or_eq with hlt | heq
    · exact (toordinal_lt_toordinal hlt).le
    · have hyear : a.year = b.year := congrArg (fun k => (ofLex k).1) heq
      have hmonth : a.month = b.month := congrArg (fun k => (ofLex (ofLex k).2).1) heq
      have hday : a.day = b.day := congrArg (fun k => (ofLex (ofLex k).2).2) heq
      simp only [toordinal, hyear, hmonth, hday, le_refl]

end Civil

end Date

/-! ### Clocks -/

/-- The standard library's `datetime`: what a clock shows and how far it is ahead of UTC. -/
structure ClockTime where
  clock : ℤ
  utcoffset : Option ℤ

namespace ClockTime

def midnight (ordinal : ℕ) : ClockTime := ⟨ordinal * Datetime.day, none⟩

theorem clock_midnight (ordinal : ℕ) : (midnight ordinal).clock = ordinal * Datetime.day := rfl

def replaceUtc (dt : ClockTime) : ClockTime := { dt with utcoffset := some 0 }

/-- What a clock of UTC shows at the same moment. A naive clock does not tell. -/
def instant (dt : ClockTime) : Option ℤ := dt.utcoffset.map (dt.clock - ·)

theorem instant_replaceUtc (dt : ClockTime) : dt.replaceUtc.instant = some dt.clock := by
  simp [instant, replaceUtc]

end ClockTime

/-- The ordinal of the date that a clock of UTC shows. -/
def utcDate (t : ℤ) : ℤ := t / Datetime.day

/-- The microseconds since midnight, on a clock of UTC. -/
def utcTime (t : ℤ) : ℤ := t % Datetime.day

theorem day_eq : (Datetime.day : ℤ) = 86400000000 := rfl

theorem midnight_le_iff {ordinal : ℕ} {t : ℤ} :
    (ClockTime.midnight ordinal).clock ≤ t ↔ ordinal ≤ utcDate t := by
  unfold utcDate
  rw [ClockTime.clock_midnight, day_eq]
  omega

theorem le_midnight_iff {ordinal : ℕ} {t : ℤ} :
    t ≤ (ClockTime.midnight ordinal).clock ↔
      utcDate t < ordinal ∨ utcDate t = ordinal ∧ utcTime t = 0 := by
  unfold utcDate utcTime
  rw [ClockTime.clock_midnight, day_eq]
  omega

end GroundedOps.Python
