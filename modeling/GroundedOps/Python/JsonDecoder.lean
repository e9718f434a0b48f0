import GroundedOps.Library.Dict
import GroundedOps.Python.JsonText

/-!
# The decoder

`json.loads`. The conversion of a float literal is the interpreter's. A string escape
that denotes half of a surrogate pair is refused, for `Text` holds scalar values.
What `dumps` writes is read back.
-/

namespace GroundedOps.Python

open Delimited

/-! ### Strings -/

def hexDigitValue (c : Char) : Option ℕ :=
  if 0x30 ≤ c.toNat ∧ c.toNat ≤ 0x39 then some (c.toNat - 0x30)
  else if 0x61 ≤ c.toNat ∧ c.toNat ≤ 0x66 then some (c.toNat - 0x61 + 10)
  else if 0x41 ≤ c.toNat ∧ c.toNat ≤ 0x46 then some (c.toNat - 0x41 + 10)
  else none

/-- Four hexadecimal digits. -/
def scanUnit : Text → Option (ℕ × Text)
  | a :: b :: c :: d :: s => do
    let a ← hexDigitValue a
    let b ← hexDigitValue b
    let c ← hexDigitValue c
    let d ← hexDigitValue d
    return (a * 0x1000 + b * 0x100 + c * 0x10 + d, s)
  | _ => none

/-- The character behind `\u`. -/
def scanUnicode (s : Text) : Option (Char × Text) := do
  let (unit, s) ← scanUnit s
  if unit < 0xd800 ∨ 0xe000 ≤ unit then return (Char.ofNat unit, s)
  match s with
  | '\\' :: 'u' :: s =>
    let (low, s) ← scanUnit s
    if unit < 0xdc00 ∧ 0xdc00 ≤ low ∧ low < 0xe000 then
      return (Char.ofNat (0x10000 + (unit - 0xd800) * 0x400 + (low - 0xdc00)), s)
    else none
  | _ => none

def backslash : List (Char × Char) :=
  [('"', '"'), ('\\', '\\'), ('/', '/'), ('b', Char.ofNat 0x08), ('f', Char.ofNat 0x0c),
    ('n', '\n'), ('r', '\r'), ('t', '\t')]

def scanChar : Text → Option (Char × Text)
  | [] => none
  | c :: s =>
    if c = '\\' then
      match s with
      | [] => none
      | e :: s => if e = 'u' then scanUnicode s else (backslash.lookup e).map fun c => (c, s)
    else if c.toNat < 0x20 then none
    else some (c, s)

/-- A string literal behind its opening quote. Every round reads a character, so `fuel` need
not exceed their number. -/
def scanChars : ℕ → Text → Option (Text × Text)
  | 0, _ => none
  | fuel + 1, s =>
    if s.head? = some '"' then some ([], s.tail)
    else do
      let (c, s) ← scanChar s
      let (cs, s) ← scanChars fuel s
      return (c :: cs, s)

def scanString (s : Text) : Except Exn (Text × Text) :=
  match scanChars s.length s with
  | some r => .ok r
  | none => .error .valueError

theorem hexDigitValue_hexDigit : ∀ n < 16, hexDigitValue (hexDigit n) = some n := by decide

theorem unicodeEscape_append {n : ℕ} (hn : n < 0x10000) (x : Text) :
    ∃ t, unicodeEscape n ++ x = '\\' :: 'u' :: t ∧ scanUnit t = some (n, x) := by
  refine ⟨_, rfl, ?_⟩
  have h3 := hexDigitValue_hexDigit (n / 0x1000 % 16) (by omega)
  have h2 := hexDigitValue_hexDigit (n / 0x100 % 16) (by omega)
  have h1 := hexDigitValue_hexDigit (n / 0x10 % 16) (by omega)
  have h0 := hexDigitValue_hexDigit (n % 16) (by omega)
  have hsum : n / 0x1000 % 16 * 0x1000 + n / 0x100 % 16 * 0x100 + n / 0x10 % 16 * 0x10 +
      n % 16 = n := by omega
  simp [scanUnit, h3, h2, h1, h0, hsum]

theorem scanChar_unicode (s : Text) : scanChar ('\\' :: 'u' :: s) = scanUnicode s := by
  simp [scanChar]

theorem scanChar_unit {n : ℕ} (h : n < 0xd800 ∨ 0xe000 ≤ n) (hn : n < 0x10000) (x : Text) :
    scanChar (unicodeEscape n ++ x) = some (Char.ofNat n, x) := by
  obtain ⟨t, ht, hunit⟩ := unicodeEscape_append hn x
  rw [ht, scanChar_unicode]
  simp [scanUnicode, hunit, h]

theorem scanChar_pair {m n : ℕ} (hm : 0xd800 ≤ m) (hm' : m < 0xdc00) (hn : 0xdc00 ≤ n)
    (hn' : n < 0xe000) (x : Text) : scanChar (unicodeEscape m ++ (unicodeEscape n ++ x)) =
      some (Char.ofNat (0x10000 + (m - 0xd800) * 0x400 + (n - 0xdc00)), x) := by
  obtain ⟨u, hu, hlow⟩ := unicodeEscape_append (show n < 0x10000 by omega) x
  rw [hu]
  obtain ⟨t, ht, hunit⟩ :=
    unicodeEscape_append (show m < 0x10000 by omega) ('\\' :: 'u' :: u)
  have hcond : ¬ (m < 0xd800 ∨ 0xe000 ≤ m) := by omega
  rw [ht, scanChar_unicode]
  simp [scanUnicode, hunit, hcond, hlow, hm', hn, hn']

/-- The escape of a character is decoded to it, whatever follows. -/
theorem scanChar_escapeChar (c : Char) (x : Text) : scanChar (escapeChar c ++ x) = some (c, x) := by
  have hvalid := toNat_valid c
  have h := escaped_escapeChar c
  generalize escapeChar c = w at h
  cases h with
  | short hmem =>
    fin_cases hmem
    all_goals rfl
  | plain hquote hslash hplain =>
    have hcontrol : ¬ c.toNat < 0x20 := by omega
    simp [scanChar, hslash, hcontrol]
  | unit hunit => rw [scanChar_unit (by omega) hunit, Char.ofNat_toNat]
  | pair hpair =>
    rw [List.append_assoc, scanChar_pair (by omega) (by omega) (by omega) (by omega),
      pair_code hpair, Char.ofNat_toNat]

theorem scanChars_flatMap {s : Text} {fuel : ℕ} (h : s.length < fuel) (x : Text) :
    scanChars fuel (s.flatMap escapeChar ++ '"' :: x) = some (s, x) := by
  induction s generalizing fuel with
  | nil =>
    obtain ⟨fuel, rfl⟩ := Nat.exists_eq_succ_of_ne_zero (Nat.ne_of_gt h)
    simp [scanChars]
  | cons c s ih =>
    obtain ⟨fuel, rfl⟩ := Nat.exists_eq_succ_of_ne_zero (Nat.ne_of_gt (Nat.zero_lt_of_lt h))
    obtain ⟨d, w, hw, -, hd⟩ := escapeChar_opens c
    have hquote : ((c :: s).flatMap escapeChar ++ '"' :: x).head? ≠ some '"' := by
      simp [hw, hd]
    rw [scanChars, if_neg hquote, List.flatMap_cons, List.append_assoc, scanChar_escapeChar]
    simp [ih (Nat.lt_of_succ_lt_succ h)]

theorem length_le_flatMap_escapeChar (s : Text) : s.length ≤ (s.flatMap escapeChar).length := by
  induction s with
  | nil => simp
  | cons c s ih =>
    obtain ⟨d, w, hw, -, -⟩ := escapeChar_opens c
    simp only [List.flatMap_cons, List.length_append, hw, List.length_cons]
    omega

theorem scanString_flatMap (s x : Text) :
    scanString (s.flatMap escapeChar ++ '"' :: x) = .ok (s, x) := by
  have hlength := length_le_flatMap_escapeChar s
  have hfuel : s.length < (s.flatMap escapeChar ++ '"' :: x).length := by
    rw [List.length_append, List.length_cons]
    omega
  rw [scanString, scanChars_flatMap hfuel]

/-! ### Numbers -/

/-- A numeral, whether it is a float literal, and the rest. -/
def scanNumber (s : Text) : Option (Text × Bool × Text) :=
  let sign : Text := if s.head? = some '-' then ['-'] else []
  let s := s.drop sign.length
  let whole := if s.head? = some '0' then ['0'] else s.takeWhile Char.isDigit
  let s := s.drop whole.length
  let digits := s.tail.takeWhile Char.isDigit
  let frac := if s.head? = some '.' ∧ digits ≠ [] then '.' :: digits else []
  let s := s.drop frac.length
  let expSign := s.tail.takeWhile fun c => c = '+' ∨ c = '-'
  let digits := (s.tail.drop expSign.length).takeWhile Char.isDigit
  let exp :=
    if (s.head? = some 'e' ∨ s.head? = some 'E') ∧ expSign.length ≤ 1 ∧ digits ≠ [] then
      s.take 1 ++ expSign ++ digits
    else []
  if whole = [] then none
  else some (sign ++ whole ++ frac ++ exp, !frac.isEmpty || !exp.isEmpty, s.drop exp.length)

theorem str_head_ne_zero {n : ℕ} (h : 0 < n) : (str n).head? ≠ some '0' := by
  rw [str, Nat.toList_repr]
  induction n using Nat.strong_induction_on with
  | _ n ih =>
    by_cases hn : n < 10
    · have hdigits : ∀ d < 10, 0 < d → Nat.digitChar d ≠ '0' := by decide
      rw [Nat.toDigits_of_lt_base hn]
      simpa using hdigits n hn h
    · rw [Nat.toDigits_of_base_le (by decide) (by omega),
        List.head?_append_of_ne_nil _ Nat.toDigits_ne_nil]
      exact ih (n / 10) (by omega) (by omega)

/-- What ends a value ends a numeral. -/
theorem stops_not_numeral {x : Text} (hx : Stops EndsValue x) :
    x.takeWhile Char.isDigit = [] ∧ x.head? ≠ some '.' ∧ x.head? ≠ some 'e' ∧
      x.head? ≠ some 'E' := by
  cases x with
  | nil => simp
  | cons c x =>
    rcases stops_cons.mp hx with rfl | rfl | rfl <;> simp [Char.isDigit]

theorem scanNumber_str (n : ℕ) (sign : Text) (hsign : sign = [] ∨ sign = ['-']) {x : Text}
    (hx : Stops EndsValue x) :
    scanNumber (sign ++ str n ++ x) = some (sign ++ str n, false, x) := by
  obtain ⟨-, hdot, he, hE⟩ := stops_not_numeral hx
  have hwhole : (if (str n ++ x).head? = some '0' then ['0']
      else (str n ++ x).takeWhile Char.isDigit) = str n := by
    rw [takeWhile_str n hx]
    split_ifs with hzero
    · have hn : ¬ 0 < n := by
        intro hn
        rw [List.head?_append_of_ne_nil _ (str_ne_nil n)] at hzero
        exact str_head_ne_zero hn hzero
      have hn0 : n = 0 := by omega
      rw [hn0]
      rfl
    · rfl
  have hminus : (if (sign ++ str n ++ x).head? = some '-' then ['-'] else []) = sign := by
    rcases hsign with rfl | rfl
    · obtain ⟨c, w, hw, hc⟩ := str_opens n
      have hne : c ≠ '-' := by
        rintro rfl
        exact absurd hc (by decide)
      simp [hw, hne]
    · simp
  have hdrop : (sign ++ str n ++ x).drop sign.length = str n ++ x := by
    rw [List.append_assoc, List.drop_left]
  simp only [scanNumber, hminus, hdrop, hwhole, List.drop_left, hdot, he, hE, false_and, or_self,
    if_false, List.length_nil, List.drop_zero, str_ne_nil, List.append_nil, List.isEmpty_nil,
    Bool.not_true, Bool.or_self]

theorem scanNumber_strInt (n : ℤ) {x : Text} (hx : Stops EndsValue x) :
    scanNumber (strInt n ++ x) = some (strInt n, false, x) := by
  unfold strInt
  split_ifs with hn
  · exact scanNumber_str n.natAbs ['-'] (.inr rfl) hx
  · exact scanNumber_str n.natAbs [] (.inl rfl) hx

/-- `int` reads a number of not too many digits back. -/
theorem intDigits_str {n : ℕ} (h : (str n).length ≤ maxStrDigits) : intDigits (str n) = .ok n := by
  have hdigits : ∀ c ∈ str n, c.isDigit = true := fun c => isDigit_of_mem_str
  have hfilter : (str n).filter isDecimal = str n :=
    List.filter_eq_self.mpr fun c hc => isDecimal_of_isDigit (hdigits c hc)
  have hvalue : readDigits 0 (str n) = some n := by
    rw [readDigits_digits hdigits, str, Nat.toList_repr, Nat.ofDigitChars_ten_toDigits]
  obtain ⟨c, w, hw, hc⟩ := str_opens n
  rw [hw] at h hfilter hvalue ⊢
  have hlength : w.length < maxStrDigits := h
  simp [intDigits, hfilter, hvalue, hlength, isDecimal_of_isDigit hc]

theorem int_strInt {n : ℤ} (h : (str n.natAbs).length ≤ maxStrDigits) :
    Python.int (strInt n) = .ok n := by
  have hspace : ∀ ascii, ∀ c ∈ strInt n, isIntSpace ascii c = false := by
    intro ascii c hc
    have hc : c = '-' ∨ c.isDigit = true := by
      unfold strInt at hc
      split_ifs at hc
      · exact (List.mem_cons.mp hc).imp id isDigit_of_mem_str
      · exact .inr (isDigit_of_mem_str hc)
    have hs : isSpace c = false := by
      rcases hc with rfl | hc
      · decide
      · exact not_isSpace_of_isDecimal (isDecimal_of_isDigit hc)
    rw [isIntSpace, hs, Bool.false_and]
  rw [Python.int, stripBy_eq_self_of_forall (hspace _)]
  unfold strInt
  split_ifs with hn
  · have habs : -(n.natAbs : ℤ) = n := by omega
    simp only [intDigits_str h]
    exact congrArg Except.ok habs
  · obtain ⟨c, w, hw, hc⟩ := str_opens n.natAbs
    have hvalue := intDigits_str h
    rw [hw] at hvalue ⊢
    split
    · exact absurd hc (by simp_all)
    · exact absurd hc (by simp_all)
    · have habs : (n.natAbs : ℤ) = n := by omega
      rw [hvalue]
      exact congrArg Except.ok habs

namespace Json

variable {F : Type} (py : Interpreter F)

def isSpace (c : Char) : Bool := c = ' ' || c = '\t' || c = '\n' || c = '\r'

def skip (s : Text) : Text := s.dropWhile isSpace

/-- The values that neither contain other values nor are strings. -/
def scanScalar (s : Text) : Except Exn (Json F × Text) :=
  if "null".toList.isPrefixOf s then .ok (.null, s.drop 4)
  else if "true".toList.isPrefixOf s then .ok (.bool true, s.drop 4)
  else if "false".toList.isPrefixOf s then .ok (.bool false, s.drop 5)
  else
    match scanNumber s with
    | some (numeral, false, s) => (Python.int numeral).map fun n => (.int n, s)
    | some (numeral, true, s) => (py.floatOfText numeral).map fun x => (.float x, s)
    | none =>
      match ["NaN", "Infinity", "-Infinity"].find? fun w => w.toList.isPrefixOf s with
      | some w => (py.floatOfText w.toList).map fun x => (.float x, s.drop w.toList.length)
      | none => .error .valueError

mutual

/-- A value at the front of a text. Every other round reads a character, so `fuel` need not
exceed twice their number by more than a constant. -/
def scanValue : ℕ → Text → Except Exn (Json F × Text)
  | 0, _ => .error .valueError
  | fuel + 1, s =>
    match s with
    | '"' :: s => do
      let (t, s) ← scanString s
      return (.str t, s)
    | '[' :: s =>
      if (skip s).head? = some ']' then .ok (.arr [], (skip s).tail)
      else do
        let (items, s) ← scanItems fuel (skip s)
        return (.arr items, s)
    | '{' :: s =>
      if (skip s).head? = some '}' then .ok (.obj [], (skip s).tail)
      else do
        let (members, s) ← scanMembers fuel Dict.empty (skip s)
        return (.obj members.items, s)
    | s => scanScalar py s

def scanItems : ℕ → Text → Except Exn (List (Json F) × Text)
  | 0, _ => .error .valueError
  | fuel + 1, s => do
    let (v, s) ← scanValue fuel s
    match skip s with
    | ',' :: s => do
      let (items, s) ← scanItems fuel (skip s)
      return (v :: items, s)
    | ']' :: s => return ([v], s)
    | _ => .error .valueError

/-- A key that occurs again keeps its place and takes the later value. -/
def scanMembers : ℕ → Dict Text (Json F) → Text → Except Exn (Dict Text (Json F) × Text)
  | 0, _, _ => .error .valueError
  | fuel + 1, members, s =>
    match s with
    | '"' :: s => do
      let (key, s) ← scanString s
      match skip s with
      | ':' :: s => do
        let (v, s) ← scanValue fuel (skip s)
        match skip s with
        | ',' :: s => scanMembers fuel (members.set key v) (skip s)
        | '}' :: s => return (members.set key v, s)
        | _ => .error .valueError
      | _ => .error .valueError
    | _ => .error .valueError

end

def byteOrderMark : Char := Char.ofNat 0xfeff

/-- `json.loads` of a string. -/
def loads (s : Text) : Except Exn (Json F) :=
  if s.head? = some byteOrderMark then .error .valueError
  else do
    let (v, rest) ← scanValue py (2 * s.length + 1) (skip s)
    if skip rest = [] then return v else .error .valueError

/-- Of the interpreter, the decoder uses only how a numeral is read as a float. -/
theorem scan_congr {py py' : Interpreter F} (h : py.floatOfText = py'.floatOfText) (fuel : ℕ) :
    (∀ s, scanValue py fuel s = scanValue py' fuel s) ∧
      (∀ s, scanItems py fuel s = scanItems py' fuel s) ∧
        ∀ members s, scanMembers py fuel members s = scanMembers py' fuel members s := by
  have hscalar : scanScalar py = scanScalar py' := by
    funext s
    unfold scanScalar
    rw [h]
  induction fuel with
  | zero =>
    refine ⟨fun s => ?_, fun s => ?_, fun members s => ?_⟩
    · rw [scanValue, scanValue]
    · rw [scanItems, scanItems]
    · rw [scanMembers, scanMembers]
  | succ fuel ih =>
    obtain ⟨ihValue, ihItems, ihMembers⟩ := ih
    refine ⟨fun s => ?_, fun s => ?_, fun members s => ?_⟩
    · unfold scanValue
      simp only [ihItems, ihMembers, hscalar]
    · unfold scanItems
      simp only [ihValue, ihItems]
    · unfold scanMembers
      simp only [ihValue, ihMembers]

theorem loads_congr {py py' : Interpreter F} (h : py.floatOfText = py'.floatOfText) (s : Text) :
    loads py s = loads py' s := by
  unfold loads
  rw [(scan_congr h _).1]

/-! ### Written values are read back -/

theorem skip_cons {c : Char} (h : isSpace c = false) (s : Text) : skip (c :: s) = c :: s := by
  rw [skip, List.dropWhile_cons_of_neg (by simp [h])]

theorem skip_space (s : Text) : skip (' ' :: s) = skip s := rfl

mutual

/-- No float occurs, the integers are short enough to be read, and the keys of every object
are distinct. -/
def Loadable : Json F → Prop
  | .float _ => False
  | .int n => (Python.str n.natAbs).length ≤ maxStrDigits
  | .arr items => LoadableItems items
  | .obj members => (members.map Prod.fst).Nodup ∧ LoadableMembers members
  | _ => True

def LoadableItems : List (Json F) → Prop
  | [] => True
  | v :: items => Loadable v ∧ LoadableItems items

def LoadableMembers : List (Text × Json F) → Prop
  | [] => True
  | (_, v) :: members => Loadable v ∧ LoadableMembers members

end

theorem loadableItems_iff {items : List (Json F)} :
    LoadableItems items ↔ ∀ v ∈ items, Loadable v := by
  induction items with
  | nil => simp [LoadableItems]
  | cons v items ih => simp [LoadableItems, ih]

theorem loadableMembers_iff {members : List (Text × Json F)} :
    LoadableMembers members ↔ ∀ p ∈ members, Loadable p.2 := by
  induction members with
  | nil => simp [LoadableMembers]
  | cons p members ih => simp [LoadableMembers, ih]

theorem strInt_opens (n : ℤ) : ∃ c w, strInt n = c :: w ∧ (c = '-' ∨ c.isDigit = true) := by
  unfold strInt
  split_ifs
  · exact ⟨'-', _, rfl, .inl rfl⟩
  · obtain ⟨c, w, hw, hc⟩ := str_opens n.natAbs
    exact ⟨c, w, hw, .inr hc⟩

theorem ne_of_numeral {c d : Char} (h : c = '-' ∨ c.isDigit = true) (hd : d ≠ '-')
    (hd' : d.isDigit = false) : c ≠ d := by
  rintro rfl
  rcases h with h | h
  · exact hd h
  · rw [hd'] at h
    cases h

theorem scanScalar_int {n : ℤ} (h : (Python.str n.natAbs).length ≤ maxStrDigits) {x : Text}
    (hx : Stops EndsValue x) : scanScalar py (strInt n ++ x) = .ok (.int n, x) := by
  obtain ⟨c, w, hw, hc⟩ := strInt_opens n
  have hword : ∀ d word, d ≠ '-' → d.isDigit = false →
      (d :: word).isPrefixOf (strInt n ++ x) = false := by
    intro d word hd hd'
    have hne : (d == c) = false := beq_false_of_ne (ne_of_numeral hc hd hd').symm
    rw [hw, List.cons_append, List.isPrefixOf_cons_cons, hne, Bool.false_and]
  have hnull : "null".toList.isPrefixOf (strInt n ++ x) = false :=
    hword 'n' _ (by decide) (by decide)
  have htrue : "true".toList.isPrefixOf (strInt n ++ x) = false :=
    hword 't' _ (by decide) (by decide)
  have hfalse : "false".toList.isPrefixOf (strInt n ++ x) = false :=
    hword 'f' _ (by decide) (by decide)
  rw [scanScalar, hnull, htrue, hfalse]
  simp only [Bool.false_eq_true, if_false, scanNumber_strInt n hx, int_strInt h, Except.map]

theorem scanValue_scalar {c : Char} (hstr : c ≠ '"') (harr : c ≠ '[') (hobj : c ≠ '{') (w : Text)
    (fuel : ℕ) : scanValue py (fuel + 1) (c :: w) = scanScalar py (c :: w) := by
  rw [scanValue]
  · rintro s ⟨⟩
    exact hstr rfl
  · rintro s ⟨⟩
    exact harr rfl
  · rintro s ⟨⟩
    exact hobj rfl

/-- What is written for a value, whatever ends it, is decoded to the value. -/
structure Reads (v : Json F) : Prop where
  start : ∃ c w, dumps py false v = c :: w ∧ isSpace c = false ∧ c ≠ ']' ∧ c ≠ byteOrderMark
  scan : ∀ x, Stops EndsValue x → ∀ fuel, 2 * (dumps py false v).length ≤ fuel →
    scanValue py fuel (dumps py false v ++ x) = .ok (v, x)

variable {py}

theorem Reads.skip {v : Json F} (h : Reads py v) (x : Text) :
    skip (dumps py false v ++ x) = dumps py false v ++ x := by
  obtain ⟨c, w, hw, hc, -⟩ := h.start
  rw [hw, List.cons_append, skip_cons hc]

theorem scanItems_dumps {v : Json F} {items : List (Json F)} (hv : Reads py v)
    (hitems : ∀ w ∈ items, Reads py w) (x : Text) {fuel : ℕ}
    (hfuel : 2 * (dumps py false v ++
      items.flatMap fun w => ',' :: ' ' :: dumps py false w).length < fuel) :
    scanItems py fuel (dumps py false v ++
      ((items.flatMap fun w => ',' :: ' ' :: dumps py false w) ++ ']' :: x)) =
        .ok (v :: items, x) := by
  induction items generalizing v fuel with
  | nil =>
    obtain ⟨fuel, rfl⟩ := Nat.exists_eq_succ_of_ne_zero (Nat.ne_of_gt (Nat.zero_lt_of_lt hfuel))
    rw [List.flatMap_nil, List.append_nil] at hfuel
    have hscan := hv.scan (']' :: x) (stops_cons.mpr (.inr (.inl rfl))) fuel (by omega)
    rw [List.flatMap_nil, List.nil_append, scanItems, hscan, ok_bind]
    rfl
  | cons w items ih =>
    obtain ⟨fuel, rfl⟩ := Nat.exists_eq_succ_of_ne_zero (Nat.ne_of_gt (Nat.zero_lt_of_lt hfuel))
    have hw : Reads py w := hitems w (by simp)
    simp only [List.flatMap_cons, List.length_append, List.length_cons] at hfuel
    have hscan := hv.scan (',' :: ' ' :: (dumps py false w ++
      ((items.flatMap fun w => ',' :: ' ' :: dumps py false w) ++ ']' :: x)))
      (stops_cons.mpr (.inl rfl)) fuel (by omega)
    have htail : scanItems py fuel (dumps py false w ++
        ((items.flatMap fun w => ',' :: ' ' :: dumps py false w) ++ ']' :: x)) =
          .ok (w :: items, x) := by
      apply ih hw fun u hu => hitems u (by simp [hu])
      rw [List.length_append]
      omega
    simp only [List.flatMap_cons, List.append_assoc, List.cons_append] at *
    rw [scanItems, hscan, ok_bind]
    simp only [skip_cons (c := ',') rfl, skip_space, hw.skip, htail, ok_bind]
    rfl

theorem memberText_append (p : Text × Json F) (y : Text) : memberText py p ++ y =
    '"' :: (p.1.flatMap escapeChar ++ '"' :: ':' :: ' ' :: (dumps py false p.2 ++ y)) := by
  simp [memberText, quote]

/-- One member at the front of an object. -/
theorem scanMembers_member {p : Text × Json F} (hp : Reads py p.2) (d : Dict Text (Json F))
    {y : Text} (hy : Stops EndsValue y) {fuel : ℕ}
    (hfuel : 2 * (dumps py false p.2).length ≤ fuel) :
    scanMembers py (fuel + 1) d (memberText py p ++ y) =
      match Json.skip y with
      | ',' :: s => scanMembers py fuel (d.set p.1 p.2) (Json.skip s)
      | '}' :: s => .ok (d.set p.1 p.2, s)
      | _ => .error .valueError := by
  rw [memberText_append, scanMembers, scanString_flatMap, ok_bind]
  simp only [skip_cons (c := ':') rfl, skip_space, hp.skip, hp.scan y hy fuel hfuel, ok_bind]
  rfl

theorem scanMembers_dumps {p : Text × Json F} {members : List (Text × Json F)}
    (hp : Reads py p.2) (hmembers : ∀ q ∈ members, Reads py q.2) (d : Dict Text (Json F))
    (x : Text) {fuel : ℕ}
    (hfuel : 2 * (memberText py p ++
      members.flatMap fun q => ',' :: ' ' :: memberText py q).length < fuel) :
    scanMembers py fuel d (memberText py p ++
      ((members.flatMap fun q => ',' :: ' ' :: memberText py q) ++ '}' :: x)) =
        .ok ((p :: members).foldl (fun d q => d.set q.1 q.2) d, x) := by
  have hvalue : ∀ q : Text × Json F, (dumps py false q.2).length ≤ (memberText py q).length := by
    intro q
    rw [memberText, List.length_append]
    omega
  have hlength := hvalue p
  induction members generalizing p d fuel with
  | nil =>
    obtain ⟨fuel, rfl⟩ := Nat.exists_eq_succ_of_ne_zero (Nat.ne_of_gt (Nat.zero_lt_of_lt hfuel))
    rw [List.flatMap_nil, List.append_nil] at hfuel
    rw [List.flatMap_nil, List.nil_append,
      scanMembers_member hp d (stops_cons.mpr (.inr (.inr rfl))) (by omega)]
    rfl
  | cons q members ih =>
    obtain ⟨fuel, rfl⟩ := Nat.exists_eq_succ_of_ne_zero (Nat.ne_of_gt (Nat.zero_lt_of_lt hfuel))
    have hq : Reads py q.2 := hmembers q (by simp)
    simp only [List.flatMap_cons, List.length_append, List.length_cons] at hfuel
    have hkey : ∀ y, Json.skip (memberText py q ++ y) = memberText py q ++ y := by
      intro y
      rw [memberText_append, skip_cons rfl]
    simp only [List.flatMap_cons, List.append_assoc, List.cons_append]
    rw [scanMembers_member hp d (stops_cons.mpr (.inl rfl)) (by omega)]
    simp only [skip_cons (c := ',') rfl, skip_space, hkey]
    apply ih hq (fun r hr => hmembers r (by simp [hr])) (d.set p.1 p.2) _ (hvalue q)
    rw [List.length_append]
    omega

theorem reads_scalar {v : Json F} {c : Char} {w : Text} (hw : dumps py false v = c :: w)
    (hspace : isSpace c = false)
    (hc : c ≠ '"' ∧ c ≠ '[' ∧ c ≠ '{' ∧ c ≠ ']' ∧ c ≠ byteOrderMark)
    (hscan : ∀ x, Stops EndsValue x → scanScalar py (dumps py false v ++ x) = .ok (v, x)) :
    Reads py v := by
  refine ⟨⟨c, w, hw, hspace, hc.2.2.2⟩, ?_⟩
  intro x hx fuel hfuel
  rw [hw, List.length_cons] at hfuel
  obtain ⟨fuel, rfl⟩ := Nat.exists_eq_succ_of_ne_zero (show fuel ≠ 0 by omega)
  have hvalue := hscan x hx
  rw [hw, List.cons_append] at hvalue ⊢
  rw [scanValue_scalar py hc.1 hc.2.1 hc.2.2.1, hvalue]

theorem reads_int {n : ℤ} (h : Loadable (F := F) (.int n)) : Reads py (.int n) := by
  obtain ⟨c, w, hw, hc⟩ := strInt_opens n
  have hspace : isSpace c = false := by
    have hne := fun d hd hd' => ne_of_numeral (d := d) hc hd hd'
    simp [isSpace, hne ' ' (by decide) (by decide), hne '\t' (by decide) (by decide),
      hne '\n' (by decide) (by decide), hne '\r' (by decide) (by decide)]
  apply reads_scalar (c := c) (w := w)
  · rw [dumps, hw]
  · exact hspace
  · exact ⟨ne_of_numeral hc (by decide) (by decide), ne_of_numeral hc (by decide) (by decide),
      ne_of_numeral hc (by decide) (by decide), ne_of_numeral hc (by decide) (by decide),
      ne_of_numeral hc (by decide) (by decide)⟩
  · intro x hx
    rw [dumps]
    exact scanScalar_int py h hx

theorem reads_str (s : Text) : Reads py (.str s) := by
  refine ⟨⟨'"', _, rfl, rfl, by decide, by decide⟩, ?_⟩
  intro x _ fuel hfuel
  rw [dumps, quote, List.cons_append, List.length_cons] at hfuel
  obtain ⟨fuel, rfl⟩ := Nat.exists_eq_succ_of_ne_zero (show fuel ≠ 0 by omega)
  simp only [dumps, quote, List.cons_append, List.append_assoc, List.nil_append, scanValue,
    scanString_flatMap, ok_bind]
  rfl

theorem reads_arr {items : List (Json F)} (h : ∀ v ∈ items, Reads py v) :
    Reads py (.arr items) := by
  refine ⟨⟨'[', _, rfl, rfl, by decide, by decide⟩, ?_⟩
  intro x _ fuel hfuel
  rw [dumps_arr] at hfuel ⊢
  obtain ⟨fuel, rfl⟩ := Nat.exists_eq_succ_of_ne_zero (show fuel ≠ 0 by
    rw [List.cons_append, List.length_cons] at hfuel
    omega)
  cases items with
  | nil => rfl
  | cons v items =>
    have hv := h v (by simp)
    rw [intercalate_cons] at hfuel ⊢
    simp only [List.cons_append, List.append_assoc, List.length_cons, List.nil_append] at hfuel ⊢
    have hitems : ∀ w ∈ items, Reads py w := fun w hw => h w (by simp [hw])
    have hlength : 2 * (dumps py false v ++
        items.flatMap fun w => ',' :: ' ' :: dumps py false w).length < fuel := by
      simp only [List.length_append, List.length_cons, List.length_nil] at hfuel ⊢
      omega
    have hscan := scanItems_dumps hv hitems x hlength
    obtain ⟨c, w, hw, hspace, hc, -⟩ := hv.start
    rw [hw, List.cons_append] at hscan ⊢
    simp [scanValue, skip_cons hspace, hc, hscan]

theorem reads_obj {members : List (Text × Json F)} (hkeys : (members.map Prod.fst).Nodup)
    (h : ∀ p ∈ members, Reads py p.2) : Reads py (.obj members) := by
  refine ⟨⟨'{', _, rfl, rfl, by decide, by decide⟩, ?_⟩
  intro x _ fuel hfuel
  rw [dumps_obj] at hfuel ⊢
  obtain ⟨fuel, rfl⟩ := Nat.exists_eq_succ_of_ne_zero (show fuel ≠ 0 by
    rw [List.cons_append, List.length_cons] at hfuel
    omega)
  cases members with
  | nil => rfl
  | cons p members =>
    have hp := h p (by simp)
    rw [intercalate_cons] at hfuel ⊢
    simp only [List.cons_append, List.append_assoc, List.length_cons, List.nil_append] at hfuel ⊢
    have hmembers : ∀ q ∈ members, Reads py q.2 := fun q hq => h q (by simp [hq])
    have hlength : 2 * (memberText py p ++
        members.flatMap fun q => ',' :: ' ' :: memberText py q).length < fuel := by
      simp only [List.length_append, List.length_cons, List.length_nil] at hfuel ⊢
      omega
    have hscan := scanMembers_dumps hp hmembers .empty x hlength
    have hitems : ((p :: members).foldl (fun d q => d.set q.1 q.2) Dict.empty).items =
        p :: members := Dict.items_ofList hkeys
    rw [memberText_append] at hscan ⊢
    simp only [scanValue, skip_cons (c := '"') rfl, hscan, ok_bind, hitems]
    rfl

mutual

theorem reads_of_loadable (v : Json F) (h : Loadable v) : Reads py v := by
  cases v with
  | null =>
    exact reads_scalar rfl (by decide) (by decide) fun x _ => rfl
  | bool b =>
    cases b with
    | true => exact reads_scalar rfl (by decide) (by decide) fun x _ => rfl
    | false => exact reads_scalar rfl (by decide) (by decide) fun x _ => rfl
  | int n => exact reads_int h
  | float x => cases h
  | str s => exact reads_str s
  | arr items => exact reads_arr fun v hv => reads_items items v hv (loadableItems_iff.mp h v hv)
  | obj members =>
    exact reads_obj h.1 fun p hp => reads_members members p hp (loadableMembers_iff.mp h.2 p hp)

theorem reads_items (items : List (Json F)) : ∀ v ∈ items, Loadable v → Reads py v := by
  cases items with
  | nil => simp
  | cons v items =>
    rw [List.forall_mem_cons]
    exact ⟨reads_of_loadable v, reads_items items⟩

theorem reads_members (members : List (Text × Json F)) : ∀ p ∈ members, Loadable p.2 →
    Reads py p.2 := by
  cases members with
  | nil => simp
  | cons p members =>
    rw [List.forall_mem_cons]
    exact ⟨reads_of_loadable p.2, reads_members members⟩

end

/-- `json.loads` undoes `json.dumps`. -/
theorem loads_dumps {v : Json F} (h : Loadable v) : loads py (dumps py false v) = .ok v := by
  have hv : Reads py v := reads_of_loadable v h
  have hskip : Json.skip (dumps py false v) = dumps py false v := by
    have := hv.skip []
    rwa [List.append_nil] at this
  have hscan : scanValue py (2 * (dumps py false v).length + 1) (dumps py false v) =
      .ok (v, []) := by
    have := hv.scan [] stops_nil (2 * (dumps py false v).length + 1) (by omega)
    rwa [List.append_nil] at this
  have hmark : (dumps py false v).head? ≠ some byteOrderMark := by
    obtain ⟨c, w, hw, -, -, hc⟩ := hv.start
    simpa [hw] using hc
  rw [loads, if_neg hmark, hskip, hscan]
  rfl

end Json

end GroundedOps.Python
