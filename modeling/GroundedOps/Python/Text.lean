import GroundedOps.Library.Program
import Mathlib.Data.Char
import Mathlib.Data.List.DropRight
import Mathlib.Tactic

/-!
# Strings of the interpreter

A `str` is the list of its code points. The character classes are those of the
interpreter's Unicode tables (version 14): `\d` and `int` accept every decimal
digit of the table, `strip` and `split` cut at every whitespace character.
-/

namespace GroundedOps.Python

abbrev Text := List Char

instance (s : Text) (names : List Text) : Decidable (s ∈ names) :=
  List.instDecidableMemOfLawfulBEq s names

/-- The exceptions whose kind some handler of the program inspects, and the rest. -/
inductive Exn
  | toolError (message : Text)
  | valueError
  | typeError
  | overflowError
  | other (kind : Text)
  deriving DecidableEq, Repr

universe u

@[simp] theorem ok_bind {α β : Type u} (a : α) (f : α → Except Exn β) :
    (Except.ok a >>= f) = f a := rfl

@[simp] theorem error_bind {α β : Type u} (e : Exn) (f : α → Except Exn β) :
    (Except.error e >>= f) = .error e := rfl

/-- First code point of every run of ten decimal digits. -/
def decimalZeros : List ℕ :=
  [0x30, 0x660, 0x6f0, 0x7c0, 0x966, 0x9e6, 0xa66, 0xae6, 0xb66, 0xbe6, 0xc66, 0xce6, 0xd66,
    0xde6, 0xe50, 0xed0, 0xf20, 0x1040, 0x1090, 0x17e0, 0x1810, 0x1946, 0x19d0, 0x1a80, 0x1a90,
    0x1b50, 0x1bb0, 0x1c40, 0x1c50, 0xa620, 0xa8d0, 0xa900, 0xa9d0, 0xa9f0, 0xaa50, 0xabf0,
    0xff10, 0x104a0, 0x10d30, 0x11066, 0x110f0, 0x11136, 0x111d0, 0x112f0, 0x11450, 0x114d0,
    0x11650, 0x116c0, 0x11730, 0x118e0, 0x11950, 0x11c50, 0x11d50, 0x11da0, 0x16a60, 0x16ac0,
    0x16b50, 0x1d7ce, 0x1d7d8, 0x1d7e2, 0x1d7ec, 0x1d7f6, 0x1e140, 0x1e2f0, 0x1e950, 0x1fbf0]

def digitValue (c : Char) : Option ℕ :=
  (decimalZeros.find? fun z => z ≤ c.toNat && c.toNat < z + 10).map fun z => c.toNat - z

/-- The class `\d` of the regular expressions. -/
def isDecimal (c : Char) : Bool := (digitValue c).isSome

/-- The code points for which `str.isspace` holds. -/
def spaces : List ℕ :=
  [0x9, 0xa, 0xb, 0xc, 0xd, 0x1c, 0x1d, 0x1e, 0x1f, 0x20, 0x85, 0xa0, 0x1680, 0x2000, 0x2001,
    0x2002, 0x2003, 0x2004, 0x2005, 0x2006, 0x2007, 0x2008, 0x2009, 0x200a, 0x2028, 0x2029,
    0x202f, 0x205f, 0x3000]

def isSpace (c : Char) : Bool := spaces.contains c.toNat

def stripBy (p : Char → Bool) (s : Text) : Text := (s.dropWhile p).rdropWhile p

def strip (s : Text) : Text := stripBy isSpace s

/-- `str.split()` without a separator: the maximal runs of other characters. -/
def split (s : Text) : List Text := (s.splitOnP isSpace).filter fun w => !w.isEmpty

def join (sep : Text) (parts : List Text) : Text := sep.intercalate parts

def str (n : ℕ) : Text := (Nat.repr n).toList

/-- The interpreter refuses to convert longer digit strings. -/
def maxStrDigits : ℕ := 4300

/-- Value of a digit string in which single underscores may separate digits;
`none` where the interpreter finds no integer literal. -/
def readDigits : ℕ → Text → Option ℕ
  | acc, [] => some acc
  | acc, '_' :: c :: s => do
    let d ← digitValue c
    readDigits (10 * acc + d) s
  | acc, c :: s => do
    let d ← digitValue c
    readDigits (10 * acc + d) s

/-- `int` on the digits behind an optional sign. -/
def intDigits (s : Text) : Except Exn ℕ :=
  match s with
  | [] => .error .valueError
  | c :: _ =>
    if isDecimal c && decide ((s.filter isDecimal).length ≤ maxStrDigits) then
      (readDigits 0 s).elim (.error .valueError) .ok
    else .error .valueError

/-- In an ASCII string `int` does not trim the four separators that `strip` does. -/
def isIntSpace (ascii : Bool) (c : Char) : Bool :=
  isSpace c && !(ascii && 0x1c ≤ c.toNat && c.toNat ≤ 0x1f)

def int (s : Text) : Except Exn ℤ :=
  match stripBy (isIntSpace (s.all fun c => c.toNat < 128)) s with
  | '-' :: ds => (intDigits ds).map fun n => -(n : ℤ)
  | '+' :: ds => (intDigits ds).map fun n => (n : ℤ)
  | ds => (intDigits ds).map fun n => (n : ℤ)

example : int " -1_0 ".toList = .ok (-10) := by decide

/-! ### Stripping -/

/-- A text stays as it is if neither its first nor its last character is stripped. -/
theorem stripBy_eq_self {p : Char → Bool} {s : Text} (hfirst : ∀ c ∈ s.head?, p c = false)
    (hlast : ∀ c ∈ s.getLast?, p c = false) : stripBy p s = s := by
  have hdrop : s.dropWhile p = s := by
    cases s with
    | nil => rfl
    | cons c s => rw [List.dropWhile_cons_of_neg (by simp [hfirst c rfl])]
  rw [stripBy, hdrop, List.rdropWhile_eq_self_iff]
  intro hne
  simp [hlast _ (List.getLast?_eq_some_getLast hne)]

theorem stripBy_eq_self_of_forall {p : Char → Bool} {s : Text} (h : ∀ c ∈ s, p c = false) :
    stripBy p s = s :=
  stripBy_eq_self (fun c hc => h c (List.mem_of_mem_head? hc))
    fun c hc => h c (List.mem_of_mem_getLast? hc)

/-! ### Character classes -/

theorem digitValue_of_isDigit {c : Char} (h : c.isDigit = true) :
    digitValue c = some (c.toNat - 48) := by
  have hc : 48 ≤ c.toNat ∧ c.toNat ≤ 57 := by
    simp only [Char.isDigit, Bool.and_eq_true, decide_eq_true_eq, ge_iff_le,
      UInt32.le_iff_toNat_le] at h
    exact h
  have hz : (decimalZeros.find? fun z => z ≤ c.toNat && c.toNat < z + 10) = some 0x30 := by
    rw [decimalZeros, List.find?_cons_of_pos]
    simp only [Bool.and_eq_true, decide_eq_true_eq]
    omega
  rw [digitValue, hz, Option.map_some]

theorem isDecimal_of_isDigit {c : Char} (h : c.isDigit = true) : isDecimal c = true := by
  rw [isDecimal, digitValue_of_isDigit h, Option.isSome_some]

theorem isDecimal_ne_open {c : Char} (h : isDecimal c = true) : c ≠ '[' := by
  rintro rfl
  exact absurd h (by decide)

theorem isDecimal_ne_close {c : Char} (h : isDecimal c = true) : c ≠ ']' := by
  rintro rfl
  exact absurd h (by decide)

theorem isDecimal_ne_underscore {c : Char} (h : isDecimal c = true) : c ≠ '_' := by
  rintro rfl
  exact absurd h (by decide)

theorem not_isSpace_of_isDecimal {c : Char} (h : isDecimal c = true) : isSpace c = false := by
  rw [Bool.eq_false_iff]
  intro hs
  have hm : c.toNat ∈ spaces := List.contains_iff_mem.mp hs
  simp only [isDecimal, digitValue, Option.isSome_map, List.find?_isSome, Bool.and_eq_true,
    decide_eq_true_eq] at h
  obtain ⟨z, hz, hle, hlt⟩ := h
  have hsep : ∀ z ∈ decimalZeros, ∀ x ∈ spaces, ¬ (z ≤ x ∧ x < z + 10) := by decide
  exact hsep z hz _ hm ⟨hle, hlt⟩

theorem str_ne_nil (n : ℕ) : str n ≠ [] := by
  rw [str, Nat.toList_repr]
  exact Nat.toDigits_ne_nil

theorem str_inj {m n : ℕ} (h : str m = str n) : m = n := by
  rw [str, str, Nat.toList_repr, Nat.toList_repr] at h
  rw [← Nat.ofDigitChars_ten_toDigits (n := m), h, Nat.ofDigitChars_ten_toDigits]

theorem isDigit_of_mem_str {n : ℕ} {c : Char} (h : c ∈ str n) : c.isDigit = true := by
  rw [str, Nat.toList_repr] at h
  exact Nat.isDigit_of_mem_toDigits (by decide) (by decide) h

theorem isDecimal_of_mem_str {n : ℕ} {c : Char} (h : c ∈ str n) : isDecimal c = true :=
  isDecimal_of_isDigit (isDigit_of_mem_str h)

theorem readDigits_isSome {s : Text} (h : ∀ c ∈ s, isDecimal c = true) (acc : ℕ) :
    (readDigits acc s).isSome := by
  induction s generalizing acc with
  | nil => rfl
  | cons c s ih =>
    have hc := h c (by simp)
    obtain ⟨d, hd⟩ := Option.isSome_iff_exists.mp hc
    rw [readDigits]
    · simpa [hd] using ih (fun x hx => h x (by simp [hx])) _
    · rintro x t rfl
      exact absurd rfl (isDecimal_ne_underscore hc)

theorem readDigits_digits {s : Text} (h : ∀ c ∈ s, c.isDigit = true) (acc : ℕ) :
    readDigits acc s = some (Nat.ofDigitChars 10 s acc) := by
  induction s generalizing acc with
  | nil => rfl
  | cons c s ih =>
    have hc := h c (by simp)
    rw [readDigits]
    · simp only [digitValue_of_isDigit hc, Option.bind_eq_bind, Option.bind_some,
        ih (fun x hx => h x (by simp [hx])), Nat.ofDigitChars_cons]
      rfl
    · rintro x t rfl
      exact absurd hc (by decide)

/-- `int` fails on a run of decimal digits only for its length. -/
theorem intDigits_decimal {s : Text} (hne : s ≠ []) (h : ∀ c ∈ s, isDecimal c = true) :
    (∃ n, intDigits s = .ok n) ↔ s.length ≤ maxStrDigits := by
  have hf : s.filter isDecimal = s := List.filter_eq_self.mpr h
  obtain ⟨n, hn⟩ := Option.isSome_iff_exists.mp (readDigits_isSome h 0)
  cases s with
  | nil => exact absurd rfl hne
  | cons c s =>
    simp only [intDigits, hf, h c (by simp), hn, Option.elim_some, Bool.true_and]
    split_ifs with hl <;> simp_all

end GroundedOps.Python
