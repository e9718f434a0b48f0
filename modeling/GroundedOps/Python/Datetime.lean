import GroundedOps.Python.Text

/-!
# Datetimes in UTC

A datetime is the number of its microseconds since 1970. The calendar is the proleptic
Gregorian one, counted from March so that a leap day ends its year.
-/

namespace GroundedOps.Python

/-- `f"{n:0{width}d}"` -/
def pad (width n : ℕ) : Text := List.replicate (width - (str n).length) '0' ++ str n

abbrev Datetime := ℕ

namespace Datetime

def microsecond : ℕ := 1
def second : ℕ := 1000000 * microsecond
def minute : ℕ := 60 * second
def hour : ℕ := 60 * minute
def day : ℕ := 24 * hour

/-- Year, month and day of a number of days since 1970. -/
def civil (days : ℕ) : ℕ × ℕ × ℕ :=
  let z := days + 719468
  let era := z / 146097
  let doe := z % 146097
  let yoe := (doe - doe / 1460 + doe / 36524 - doe / 146096) / 365
  let doy := doe - (365 * yoe + yoe / 4 - yoe / 100)
  let mp := (5 * doy + 2) / 153
  let month := if mp < 10 then mp + 3 else mp - 9
  (yoe + era * 400 + (if month ≤ 2 then 1 else 0), month, doy - (153 * mp + 2) / 5 + 1)

def date (dt : Datetime) : Text :=
  let ymd := civil (dt / day)
  pad 4 ymd.1 ++ "-".toList ++ pad 2 ymd.2.1 ++ "-".toList ++ pad 2 ymd.2.2

/-- `dt.strftime("%Y-%m-%d %H:%M UTC")` -/
def strftime (dt : Datetime) : Text :=
  dt.date ++ " ".toList ++ pad 2 (dt / hour % 24) ++ ":".toList ++ pad 2 (dt / minute % 60) ++
    " UTC".toList

/-- `dt.isoformat()` -/
def isoformat (dt : Datetime) : Text :=
  let micros := dt % second
  dt.date ++ "T".toList ++ pad 2 (dt / hour % 24) ++ ":".toList ++ pad 2 (dt / minute % 60) ++
    ":".toList ++ pad 2 (dt / second % 60) ++
    (if micros = 0 then [] else ".".toList ++ pad 6 micros) ++ "+00:00".toList

example : isoformat (1781524800 * second + 7) = "2026-06-15T12:00:00.000007+00:00".toList := by
  decide

end Datetime

/-! ### Padded numbers -/

theorem pad_inj {width m n : ℕ} (h : pad width m = pad width n) : m = n := by
  have hvalue : ∀ k, Nat.ofDigitChars 10 (pad width k) 0 = k := by
    intro k
    rw [pad, Nat.ofDigitChars_append, Nat.ofDigitChars_replicate_zero, Nat.mul_zero, str,
      Nat.toList_repr, Nat.ofDigitChars_ten_toDigits]
  rw [← hvalue m, h, hvalue n]

theorem isDigit_of_mem_pad {width n : ℕ} {c : Char} (h : c ∈ pad width n) : c.isDigit = true := by
  rcases List.mem_append.mp h with h | h
  · rw [List.eq_of_mem_replicate h]
    rfl
  · exact isDigit_of_mem_str h

theorem notMem_pad {c : Char} (h : c.isDigit = false) (width n : ℕ) : c ∉ pad width n := by
  intro hc
  rw [isDigit_of_mem_pad hc] at h
  cases h

/-- A number ends at the first character that is no digit. -/
theorem pad_append_inj {width m n : ℕ} {c : Char} (hc : c.isDigit = false) {x y : Text}
    (h : pad width m ++ c :: x = pad width n ++ c :: y) : m = n := by
  have hdigits : ∀ (k : ℕ) (z : Text), (pad width k ++ c :: z).takeWhile Char.isDigit =
      pad width k := by
    intro k z
    rw [List.takeWhile_append_of_pos fun d hd => isDigit_of_mem_pad hd,
      List.takeWhile_cons_of_neg (by simp [hc]), List.append_nil]
  have hpad : pad width m = pad width n := by rw [← hdigits m x, h, hdigits n y]
  exact pad_inj hpad

theorem Datetime.return_notMem_strftime (dt : Datetime) : '\r' ∉ dt.strftime := by
  have hpad : ∀ width n, '\r' ∉ pad width n := notMem_pad rfl
  simp only [strftime, date, List.mem_append, hpad, or_false, false_or, not_or]
  decide

end GroundedOps.Python
