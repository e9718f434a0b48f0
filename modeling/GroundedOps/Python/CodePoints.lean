import GroundedOps.Python.JsonText

/-!
# Strings as sequences of code points

A Python string may hold surrogates, which are no characters. A literal writes a code
point above 0xffff as the escapes of two surrogates and a surrogate as its own
escape, so the two halves next to each other read like the whole. Strings without
such a pair are written unambiguously.
-/

namespace GroundedOps.Python

open Delimited

/-- A code point; those from 0xd800 up to 0xe000 are surrogates. -/
abbrev CodePoint := Fin 0x110000

abbrev Str := List CodePoint

def code (c : Char) : CodePoint := Fin.ofNat 0x110000 c.toNat

def codes (t : Text) : Str := t.map code

def High (c : CodePoint) : Prop := 0xd800 ≤ c.val ∧ c.val < 0xdc00

def Low (c : CodePoint) : Prop := 0xdc00 ≤ c.val ∧ c.val < 0xe000

instance : DecidablePred High := fun c => inferInstanceAs (Decidable (_ ≤ c.val ∧ c.val < _))

instance : DecidablePred Low := fun c => inferInstanceAs (Decidable (_ ≤ c.val ∧ c.val < _))

/-- No high surrogate stands directly before a low one. -/
def Unpaired (s : Str) : Prop := s.IsChain fun c d => ¬ (High c ∧ Low d)

instance : DecidablePred Unpaired :=
  fun s => inferInstanceAs (Decidable (s.IsChain fun c d => ¬ (High c ∧ Low d)))

/-- One code point of a string literal, in ASCII. -/
def escapeCode (c : CodePoint) : Text :=
  if c.val < 0xd800 ∨ 0xe000 ≤ c.val then escapeChar (Char.ofNat c.val) else unicodeEscape c.val

def quoteStr (s : Str) : Text := '"' :: s.flatMap escapeCode ++ ['"']

/-! ### Characters among the code points -/

theorem val_code (c : Char) : (code c).val = c.toNat := by
  have hvalid := toNat_valid c
  rw [code, Fin.val_ofNat]
  omega

theorem code_injective : Function.Injective code := by
  intro c d h
  have hval := congrArg Fin.val h
  rw [val_code, val_code] at hval
  exact Char.toNat_inj.mp hval

theorem codes_injective : Function.Injective codes := List.map_injective_iff.mpr code_injective

theorem code_lt_iff (c d : Char) : code c < code d ↔ c < d := by
  rw [Fin.lt_def, val_code, val_code, Char.lt_def, UInt32.lt_iff_toNat_lt]
  rfl

theorem codes_lt_iff (s t : Text) : codes s < codes t ↔ s < t := by
  induction s generalizing t with
  | nil => cases t <;> simp [codes]
  | cons c s ih =>
    cases t with
    | nil => simp [codes]
    | cons d t =>
      have htail := ih t
      simp only [codes] at htail
      simp only [codes, List.map_cons, List.cons_lt_cons_iff, htail, code_lt_iff,
        code_injective.eq_iff]

/-- Sorting by code points sorts texts by their characters. -/
theorem codes_le_iff (s t : Text) : codes s ≤ codes t ↔ s ≤ t := by
  rw [← not_lt, ← not_lt, codes_lt_iff]

theorem unpaired_codes (t : Text) : Unpaired (codes t) := by
  apply List.Pairwise.isChain
  rw [codes, List.pairwise_map]
  apply List.pairwise_of_forall
  rintro c d ⟨hc, -⟩
  have hvalid := toNat_valid c
  rw [High, val_code] at hc
  omega

theorem escapeCode_code (c : Char) : escapeCode (code c) = escapeChar c := by
  have hvalid := toNat_valid c
  rw [escapeCode, val_code, if_pos (by omega), Char.ofNat_toNat]

theorem quoteStr_codes (t : Text) : quoteStr (codes t) = quote t := by
  have hbody : (codes t).flatMap escapeCode = t.flatMap escapeChar := by
    rw [codes, List.flatMap_map]
    exact List.flatMap_congr fun c _ => escapeCode_code c
  rw [quoteStr, quote, hbody]

/-! ### Escapes are read back -/

/-- What an escape stands for: a code point up to 0xffff, or half of one above. -/
abbrev CodeUnit := Fin 0x10000

def units (c : CodePoint) : List CodeUnit :=
  if c.val < 0x10000 then [Fin.ofNat 0x10000 c.val]
  else [Fin.ofNat 0x10000 (0xd800 + (c.val - 0x10000) / 0x400),
    Fin.ofNat 0x10000 (0xdc00 + (c.val - 0x10000) % 0x400)]

def escapeUnit (u : CodeUnit) : Text :=
  if u.val < 0xd800 ∨ 0xe000 ≤ u.val then escapeChar (Char.ofNat u.val) else unicodeEscape u.val

theorem toNat_ofNat {n : ℕ} (hn : n < 0x110000) (h : n < 0xd800 ∨ 0xe000 ≤ n) :
    (Char.ofNat n).toNat = n := by
  have hvalid : n.isValidChar := by
    unfold Nat.isValidChar
    omega
  rw [Char.ofNat, dif_pos hvalid]
  rfl

def hexValue (c : Char) : ℕ := "0123456789abcdef".toList.idxOf c

theorem hexValue_hexDigit : ∀ n < 16, hexValue (hexDigit n) = n := by decide

def unitValue (a b c d : Char) : ℕ :=
  hexValue a * 0x1000 + hexValue b * 0x100 + hexValue c * 0x10 + hexValue d

theorem unitValue_hexDigits {n : ℕ} (h : n < 0x10000) :
    unitValue (hexDigit (n / 0x1000 % 16)) (hexDigit (n / 0x100 % 16))
      (hexDigit (n / 0x10 % 16)) (hexDigit (n % 16)) = n := by
  have h3 := hexValue_hexDigit (n / 0x1000 % 16) (by omega)
  have h2 := hexValue_hexDigit (n / 0x100 % 16) (by omega)
  have h1 := hexValue_hexDigit (n / 0x10 % 16) (by omega)
  have h0 := hexValue_hexDigit (n % 16) (by omega)
  rw [unitValue, h3, h2, h1, h0]
  omega

/-- The character a two-letter escape stands for. -/
def shortEscape (c : Char) : Char :=
  if c = 'n' then '\n'
  else if c = 'r' then '\r'
  else if c = 't' then '\t'
  else if c = 'f' then Char.ofNat 0x0c
  else if c = 'b' then Char.ofNat 0x08
  else c

/-- The first unit of the body of a string literal, and the rest. -/
def readUnit : Text → Option (CodeUnit × Text)
  | '\\' :: 'u' :: a :: b :: c :: d :: s => some (Fin.ofNat 0x10000 (unitValue a b c d), s)
  | '\\' :: c :: s => some (Fin.ofNat 0x10000 (shortEscape c).toNat, s)
  | c :: s => some (Fin.ofNat 0x10000 c.toNat, s)
  | [] => none

theorem readUnit_unicodeEscape {n : ℕ} (h : n < 0x10000) (x : Text) :
    readUnit (unicodeEscape n ++ x) = some (Fin.ofNat 0x10000 n, x) := by
  simp only [unicodeEscape, List.cons_append, List.nil_append, readUnit, unitValue_hexDigits h]

theorem readUnit_escapeChar {c : Char} (hc : c.toNat < 0x10000) (x : Text) :
    readUnit (escapeChar c ++ x) = some (Fin.ofNat 0x10000 c.toNat, x) := by
  have h := escaped_escapeChar c
  generalize escapeChar c = w at h
  cases h with
  | short hmem =>
    fin_cases hmem
    all_goals rfl
  | plain hquote hslash _ =>
    rw [List.singleton_append, readUnit]
    · intro _ _ _ _ _ hslash'
      exact absurd hslash' hslash
    · intro _ _ hslash'
      exact absurd hslash' hslash
  | unit hunit => exact readUnit_unicodeEscape hunit x
  | pair hpair => omega

/-- The escape of a unit is read back, whatever follows. -/
theorem readUnit_escapeUnit (u : CodeUnit) (x : Text) :
    readUnit (escapeUnit u ++ x) = some (u, x) := by
  have hu := u.isLt
  rw [escapeUnit]
  split_ifs with h
  · have hval : (Char.ofNat u.val).toNat = u.val := toNat_ofNat (by omega) h
    rw [readUnit_escapeChar (by omega), hval, Fin.ofNat_val_eq_self]
  · rw [readUnit_unicodeEscape hu, Fin.ofNat_val_eq_self]

theorem escapeUnit_opens (u : CodeUnit) : Opens (fun _ => True) escapeUnit '"' u := by
  unfold Opens escapeUnit
  split_ifs with h
  · exact escapeChar_opens _
  · exact ⟨'\\', _, rfl, trivial, by decide⟩

theorem escapeChar_pair {c : Char} (h : 0x10000 ≤ c.toNat) :
    escapeChar c = unicodeEscape (0xd800 + (c.toNat - 0x10000) / 0x400) ++
      unicodeEscape (0xdc00 + (c.toNat - 0x10000) % 0x400) := by
  have hesc := escaped_escapeChar c
  generalize escapeChar c = w at hesc
  cases hesc with
  | short hmem =>
    have hsmall : ∀ p ∈ shortEscapes, p.1.toNat < 0x10000 := by decide
    exact absurd (hsmall _ hmem) (Nat.not_lt.mpr h)
  | plain _ _ _ => omega
  | unit _ => omega
  | pair _ => rfl

theorem escapeUnit_ofNat_surrogate {n : ℕ} (h : 0xd800 ≤ n) (h' : n < 0xe000) :
    escapeUnit (Fin.ofNat 0x10000 n) = unicodeEscape n := by
  have hval : (Fin.ofNat 0x10000 n).val = n := by
    rw [Fin.val_ofNat]
    omega
  rw [escapeUnit, hval, if_neg (by omega)]

theorem escapeCode_eq_units (c : CodePoint) : escapeCode c = (units c).flatMap escapeUnit := by
  have hc := c.isLt
  unfold units
  split_ifs with h
  · have hval : (Fin.ofNat 0x10000 c.val).val = c.val := by
      rw [Fin.val_ofNat]
      omega
    rw [List.flatMap_singleton, escapeUnit, escapeCode, hval]
  · have hval := toNat_ofNat hc (by omega)
    rw [escapeCode, if_pos (by omega), escapeChar_pair (by omega), hval]
    simp only [List.flatMap_cons, List.flatMap_nil, List.append_nil]
    rw [escapeUnit_ofNat_surrogate (by omega) (by omega),
      escapeUnit_ofNat_surrogate (by omega) (by omega)]

/-- A code point is one unit, or a high one and a low one that determine it. -/
theorem units_cases (c : CodePoint) : (∃ u, units c = [u] ∧ u.val = c.val) ∨
    ∃ u v, units c = [u, v] ∧ (0xd800 ≤ u.val ∧ u.val < 0xdc00) ∧
      (0xdc00 ≤ v.val ∧ v.val < 0xe000) ∧
      c.val = 0x10000 + (u.val - 0xd800) * 0x400 + (v.val - 0xdc00) := by
  have hc := c.isLt
  unfold units
  split_ifs with h
  · refine .inl ⟨_, rfl, ?_⟩
    rw [Fin.val_ofNat]
    omega
  · refine .inr ⟨_, _, rfl, ?_⟩
    simp only [Fin.val_ofNat]
    omega

/-- Only a low surrogate has a low unit in front. -/
theorem low_head {s : Str} {v : CodeUnit} {rest : List CodeUnit} (h : s.flatMap units = v :: rest)
    (hv : 0xdc00 ≤ v.val ∧ v.val < 0xe000) : ∃ d s', s = d :: s' ∧ Low d := by
  cases s with
  | nil => cases h
  | cons d s =>
    refine ⟨d, s, rfl, ?_⟩
    rw [List.flatMap_cons] at h
    rcases units_cases d with ⟨u, hd, hu⟩ | ⟨u, v', hd, hu, -, -⟩
    · rw [hd, List.singleton_append, List.cons.injEq] at h
      rw [Low, ← hu, h.1]
      exact hv
    · rw [hd, List.cons_append, List.cons.injEq] at h
      rw [h.1] at hu
      omega

theorem unpaired_cons {c : CodePoint} {s : Str} (h : Unpaired (c :: s)) : Unpaired s :=
  List.IsChain.of_cons h

/-- A single unit is no half of a pair if its string goes on without one. -/
theorem not_half {c : CodePoint} {s : Str} {u v : CodeUnit} {rest : List CodeUnit}
    (hs : Unpaired (c :: s)) (hu : u.val = c.val) (hhigh : 0xd800 ≤ u.val ∧ u.val < 0xdc00)
    (hv : 0xdc00 ≤ v.val ∧ v.val < 0xe000) (h : s.flatMap units = v :: rest) : False := by
  obtain ⟨d, s', rfl, hd⟩ := low_head h hv
  refine (List.isChain_cons_cons.mp hs).1 ⟨?_, hd⟩
  rwa [High, ← hu]

/-- Units determine a string without a high surrogate directly before a low one. -/
theorem units_inj {s t : Str} (hs : Unpaired s) (ht : Unpaired t)
    (h : s.flatMap units = t.flatMap units) : s = t := by
  have hne : ∀ (c : CodePoint) (s : Str), (c :: s).flatMap units ≠ [] := by
    intro c s
    rw [List.flatMap_cons]
    rcases units_cases c with ⟨u, hc, -⟩ | ⟨u, v, hc, -⟩ <;> simp [hc]
  induction s generalizing t with
  | nil =>
    cases t with
    | nil => rfl
    | cons d t => exact absurd h.symm (hne d t)
  | cons c s ih =>
    cases t with
    | nil => exact absurd h (hne c s)
    | cons d t =>
      rw [List.flatMap_cons, List.flatMap_cons] at h
      have htail := ih (unpaired_cons hs) (unpaired_cons ht)
      rcases units_cases c with ⟨u, hc, hu⟩ | ⟨u, v, hc, hu, hv, hval⟩
      · rcases units_cases d with ⟨u', hd, hu'⟩ | ⟨u', v', hd, hu', hv', -⟩
        · simp only [hc, hd, List.singleton_append, List.cons.injEq] at h
          obtain rfl := h.1
          rw [Fin.ext (hu.symm.trans hu'), htail h.2]
        · simp only [hc, hd, List.cons_append, List.nil_append, List.cons.injEq] at h
          obtain ⟨rfl, hrest⟩ := h
          exact (not_half hs hu hu' hv' hrest).elim
      · rcases units_cases d with ⟨u', hd, hu'⟩ | ⟨u', v', hd, -, -, hval'⟩
        · simp only [hc, hd, List.cons_append, List.nil_append, List.cons.injEq] at h
          obtain ⟨rfl, hrest⟩ := h
          exact (not_half ht hu' hu hv hrest.symm).elim
        · simp only [hc, hd, List.cons_append, List.nil_append, List.cons.injEq] at h
          obtain ⟨rfl, rfl, hrest⟩ := h
          rw [Fin.ext (hval.trans hval'.symm), htail hrest]

/-- A string literal ends at its closing quote. -/
theorem quoteStr_inj {s t : Str} {x y : Text} (hs : Unpaired s) (ht : Unpaired t)
    (h : quoteStr s ++ x = quoteStr t ++ y) : s = t ∧ x = y := by
  have hbody : ∀ s : Str, s.flatMap escapeCode = (s.flatMap units).flatMap escapeUnit := by
    intro s
    rw [List.flatMap_assoc]
    exact List.flatMap_congr fun c _ => escapeCode_eq_units c
  simp only [quoteStr, List.cons_append, List.append_assoc, List.cons.injEq, true_and,
    List.nil_append, hbody] at h
  obtain ⟨hunits, hxy⟩ := flatMap_inj (fun u _ => escapeUnit_opens u)
    (fun u _ => escapeUnit_opens u) trivial
    (fun u _ v _ => apart_of_read readUnit_escapeUnit u v) h
  exact ⟨units_inj hs ht hunits, hxy⟩

end GroundedOps.Python
