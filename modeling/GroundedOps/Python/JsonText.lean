import GroundedOps.Library.Delimited
import GroundedOps.Library.Lists
import GroundedOps.Python.Json

/-!
# The text of written values

The four ways of escaping a character, the digits of an integer, and the parts of
arrays and objects. Only printable ASCII is written.
-/

namespace GroundedOps.Python

open Delimited

/-! ### String literals -/

theorem toNat_valid (c : Char) : c.toNat < 0xd800 ∨ 0xe000 ≤ c.toNat ∧ c.toNat < 0x110000 := by
  have h := c.valid
  simp only [UInt32.isValidChar, Nat.isValidChar] at h
  have hc : c.val.toNat = c.toNat := rfl
  omega

/-- The characters that are escaped by a letter. -/
def shortEscapes : List (Char × Char) :=
  [('"', '"'), ('\\', '\\'), ('\n', 'n'), ('\r', 'r'), ('\t', 't'), (Char.ofNat 0x0c, 'f'),
    (Char.ofNat 0x08, 'b')]

/-- The four ways of writing a character. -/
inductive Escaped : Char → Text → Prop
  | short {c d : Char} (h : (c, d) ∈ shortEscapes) : Escaped c ['\\', d]
  | plain {c : Char} (hquote : c ≠ '"') (hslash : c ≠ '\\')
      (h : 0x20 ≤ c.toNat ∧ c.toNat ≤ 0x7e) : Escaped c [c]
  | unit {c : Char} (h : c.toNat < 0x10000) : Escaped c (unicodeEscape c.toNat)
  | pair {c : Char} (h : 0x10000 ≤ c.toNat) :
      Escaped c (unicodeEscape (0xd800 + (c.toNat - 0x10000) / 0x400) ++
        unicodeEscape (0xdc00 + (c.toNat - 0x10000) % 0x400))

theorem escaped_escapeChar (c : Char) : Escaped c (escapeChar c) := by
  unfold escapeChar
  by_cases hquote : c = '"'
  · rw [if_pos hquote, hquote]
    exact .short (by decide)
  by_cases hslash : c = '\\'
  · rw [if_neg hquote, if_pos hslash, hslash]
    exact .short (by decide)
  by_cases hn : c = '\n'
  · rw [if_neg hquote, if_neg hslash, if_pos hn, hn]
    exact .short (by decide)
  by_cases hr : c = '\r'
  · rw [if_neg hquote, if_neg hslash, if_neg hn, if_pos hr, hr]
    exact .short (by decide)
  by_cases ht : c = '\t'
  · rw [if_neg hquote, if_neg hslash, if_neg hn, if_neg hr, if_pos ht, ht]
    exact .short (by decide)
  rw [if_neg hquote, if_neg hslash, if_neg hn, if_neg hr, if_neg ht]
  by_cases hf : c.toNat = 0x0c
  · have hc : c = Char.ofNat 0x0c := by rw [← hf, Char.ofNat_toNat]
    rw [if_pos hf, hc]
    exact .short (by decide)
  by_cases hb : c.toNat = 0x08
  · have hc : c = Char.ofNat 0x08 := by rw [← hb, Char.ofNat_toNat]
    rw [if_neg hf, if_pos hb, hc]
    exact .short (by decide)
  rw [if_neg hf, if_neg hb]
  by_cases hplain : 0x20 ≤ c.toNat ∧ c.toNat ≤ 0x7e
  · rw [if_pos hplain]
    exact .plain hquote hslash hplain
  rw [if_neg hplain]
  by_cases hunit : c.toNat < 0x10000
  · rw [if_pos hunit]
    exact .unit hunit
  · rw [if_neg hunit]
    exact .pair (Nat.le_of_not_lt hunit)

/-- The two halves of a pair give back the code of the character. -/
theorem pair_code {n : ℕ} (h : 0x10000 ≤ n) :
    0x10000 + (0xd800 + (n - 0x10000) / 0x400 - 0xd800) * 0x400 +
      (0xdc00 + (n - 0x10000) % 0x400 - 0xdc00) = n := by
  omega

theorem escapeChar_cases (c : Char) :
    escapeChar c = [c] ∧ c ≠ '"' ∧ c ≠ '\\' ∨ ∃ w, escapeChar c = '\\' :: w := by
  have h := escaped_escapeChar c
  generalize escapeChar c = w at h
  cases h with
  | short _ => exact .inr ⟨_, rfl⟩
  | plain hquote hslash _ => exact .inl ⟨rfl, hquote, hslash⟩
  | unit _ => exact .inr ⟨_, rfl⟩
  | pair _ => exact .inr ⟨_, rfl⟩

theorem escapeChar_opens (c : Char) : Opens (fun _ => True) escapeChar '"' c := by
  rcases escapeChar_cases c with ⟨hw, hquote, -⟩ | ⟨w, hw⟩
  · exact ⟨c, [], hw, trivial, hquote⟩
  · exact ⟨'\\', w, hw, trivial, by decide⟩

/-! ### Integers -/

/-- What ends a value inside an array or an object. -/
def EndsValue (c : Char) : Prop := c = ',' ∨ c = ']' ∨ c = '}'

theorem takeWhile_str (n : ℕ) {x : Text} (hx : Stops EndsValue x) :
    (str n ++ x).takeWhile Char.isDigit = str n := by
  rw [List.takeWhile_append_of_pos fun c hc => isDigit_of_mem_str hc]
  cases x with
  | nil => simp
  | cons c x =>
    have hc : ¬ c.isDigit = true := by
      rcases stops_cons.mp hx with rfl | rfl | rfl <;> decide
    rw [List.takeWhile_cons_of_neg hc, List.append_nil]

theorem str_apart (m n : ℕ) : Apart EndsValue str m n := by
  intro x y hx hy h
  have hstr : str m = str n := by rw [← takeWhile_str m hx, h, takeWhile_str n hy]
  rw [hstr] at h
  exact ⟨str_inj hstr, List.append_cancel_left h⟩

theorem str_opens (n : ℕ) : ∃ c w, str n = c :: w ∧ c.isDigit = true := by
  cases hn : str n with
  | nil => exact absurd hn (str_ne_nil n)
  | cons c w => exact ⟨c, w, rfl, isDigit_of_mem_str (n := n) (by simp [hn])⟩

theorem strInt_apart (m n : ℤ) : Apart EndsValue strInt m n := by
  intro x y hx hy h
  have hminus : ∀ (k : ℕ) (x y : Text), str k ++ x ≠ '-' :: y := by
    intro k x y heq
    obtain ⟨c, w, hw, hc⟩ := str_opens k
    rw [hw, List.cons_append, List.cons.injEq] at heq
    rw [heq.1] at hc
    exact absurd hc (by decide)
  unfold strInt at h
  split_ifs at h with hm hn hn
  · rw [List.cons_append, List.cons_append, List.cons.injEq] at h
    obtain ⟨habs, hxy⟩ := str_apart _ _ x y hx hy h.2
    exact ⟨by omega, hxy⟩
  · exact absurd h.symm (hminus _ _ _)
  · exact absurd h (hminus _ _ _)
  · obtain ⟨habs, hxy⟩ := str_apart _ _ x y hx hy h
    exact ⟨by omega, hxy⟩

/-! ### Values -/

namespace Json

variable {F : Type} (py : Interpreter F)

mutual

/-- No floating point number occurs. -/
def FloatFree : Json F → Prop
  | .float _ => False
  | .arr items => FloatFreeItems items
  | .obj members => FloatFreeMembers members
  | _ => True

def FloatFreeItems : List (Json F) → Prop
  | [] => True
  | v :: items => FloatFree v ∧ FloatFreeItems items

def FloatFreeMembers : List (Text × Json F) → Prop
  | [] => True
  | (_, v) :: members => FloatFree v ∧ FloatFreeMembers members

end

theorem floatFreeItems_iff {items : List (Json F)} :
    FloatFreeItems items ↔ ∀ v ∈ items, FloatFree v := by
  induction items with
  | nil => simp [FloatFreeItems]
  | cons v items ih => simp [FloatFreeItems, ih]

theorem floatFreeMembers_iff {members : List (Text × Json F)} :
    FloatFreeMembers members ↔ ∀ p ∈ members, FloatFree p.2 := by
  induction members with
  | nil => simp [FloatFreeMembers]
  | cons p members ih => simp [FloatFreeMembers, ih]

/-- One member of an object, as written. -/
def memberText (p : Text × Json F) : Text := quote p.1 ++ ": ".toList ++ dumps py false p.2

theorem dumps_arr (items : List (Json F)) : dumps py false (.arr items) =
    '[' :: [',', ' '].intercalate (items.map (dumps py false)) ++ [']'] := by
  have hitems : ∀ items : List (Json F), dumpsItems py false items = items.map (dumps py false) := by
    intro items
    induction items with
    | nil => rfl
    | cons v items ih => rw [dumpsItems, ih, List.map_cons]
  rw [dumps, hitems]
  rfl

theorem dumps_obj (members : List (Text × Json F)) : dumps py false (.obj members) =
    '{' :: [',', ' '].intercalate (members.map (memberText py)) ++ ['}'] := by
  rw [dumps, dumpsMembers_eq_map]
  simp only [Bool.false_eq_true, if_false, List.map_map]
  rfl

/-! ### The characters of a text -/

/-- Only characters of printable ASCII occur. -/
def Printable (s : Text) : Prop := ∀ c ∈ s, 0x20 ≤ c.toNat ∧ c.toNat ≤ 0x7e

instance (s : Text) : Decidable (Printable s) :=
  List.decidableBAll (fun c : Char => 0x20 ≤ c.toNat ∧ c.toNat ≤ 0x7e) s

theorem printable_cons {c : Char} {s : Text} :
    Printable (c :: s) ↔ (0x20 ≤ c.toNat ∧ c.toNat ≤ 0x7e) ∧ Printable s := List.forall_mem_cons

theorem printable_append {s t : Text} : Printable (s ++ t) ↔ Printable s ∧ Printable t :=
  List.forall_mem_append

theorem printable_unicodeEscape (n : ℕ) : Printable (unicodeEscape n) := by
  have hdigit : ∀ m < 16, 0x20 ≤ (hexDigit m).toNat ∧ (hexDigit m).toNat ≤ 0x7e := by decide
  have hmod : ∀ m, m % 16 < 16 := fun m => Nat.mod_lt m (by decide)
  intro c hc
  simp only [unicodeEscape, List.mem_cons, List.not_mem_nil, or_false] at hc
  rcases hc with rfl | rfl | rfl | rfl | rfl | rfl
  · decide
  · decide
  all_goals exact hdigit _ (hmod _)

theorem printable_escapeChar (c : Char) : Printable (escapeChar c) := by
  have h := escaped_escapeChar c
  generalize escapeChar c = w at h
  cases h with
  | short hmem =>
    fin_cases hmem
    all_goals decide
  | plain _ _ hplain => exact fun d hd => by rwa [List.mem_singleton.mp hd]
  | unit _ => exact printable_unicodeEscape _
  | pair _ => exact printable_append.mpr ⟨printable_unicodeEscape _, printable_unicodeEscape _⟩

theorem printable_quote (s : Text) : Printable (quote s) := by
  have hbody : Printable (s.flatMap escapeChar) := by
    intro c hc
    obtain ⟨d, -, hd⟩ := List.mem_flatMap.mp hc
    exact printable_escapeChar d c hd
  exact printable_cons.mpr ⟨by decide, printable_append.mpr ⟨hbody, by decide⟩⟩

theorem printable_strInt (n : ℤ) : Printable (strInt n) := by
  have hstr : ∀ m, Printable (Python.str m) := by
    intro m c hc
    have hdigit := isDigit_of_mem_str hc
    simp only [Char.isDigit, Bool.and_eq_true, decide_eq_true_eq, ge_iff_le,
      UInt32.le_iff_toNat_le] at hdigit
    have hcode : 48 ≤ c.toNat ∧ c.toNat ≤ 57 := hdigit
    omega
  unfold strInt
  split_ifs
  · exact printable_cons.mpr ⟨by decide, hstr _⟩
  · exact hstr _

theorem printable_intercalate {parts : List Text} (h : ∀ p ∈ parts, Printable p) :
    Printable ([',', ' '].intercalate parts) := by
  have hsep : Printable [',', ' '] := by decide
  exact intercalate_of_append nofun (fun _ _ hs ht => printable_append.mpr ⟨hs, ht⟩) hsep h

mutual

/-- Whatever is not in ASCII is escaped, if the numbers are in ASCII. -/
theorem printable_dumps_of_floats (v : Json F)
    (h : (∀ x, Printable (py.dumpsFloat x)) ∨ FloatFree v) : Printable (dumps py false v) := by
  cases v with
  | null =>
    rw [dumps]
    decide
  | bool b =>
    rw [dumps]
    cases b <;> decide
  | int n => exact printable_strInt n
  | float x =>
    rcases h with h | h
    · exact h x
    · exact absurd h (by simp [FloatFree])
  | str s => exact printable_quote s
  | arr items =>
    rw [dumps_arr, List.cons_append]
    apply printable_cons.mpr ⟨by decide, printable_append.mpr ⟨printable_intercalate ?_, by decide⟩⟩
    intro p hp
    obtain ⟨v, hv, rfl⟩ := List.mem_map.mp hp
    exact printable_items items v hv (h.imp_right fun h => floatFreeItems_iff.mp h v hv)
  | obj members =>
    rw [dumps_obj, List.cons_append]
    apply printable_cons.mpr ⟨by decide, printable_append.mpr ⟨printable_intercalate ?_, by decide⟩⟩
    intro t ht
    obtain ⟨p, hp, rfl⟩ := List.mem_map.mp ht
    rw [memberText, printable_append, printable_append]
    exact ⟨⟨printable_quote p.1, by decide⟩, printable_members members p hp
      (h.imp_right fun h => floatFreeMembers_iff.mp h p hp)⟩

theorem printable_items (items : List (Json F)) : ∀ v ∈ items,
    (∀ x, Printable (py.dumpsFloat x)) ∨ FloatFree v → Printable (dumps py false v) := by
  cases items with
  | nil => simp
  | cons v items =>
    rw [List.forall_mem_cons]
    exact ⟨printable_dumps_of_floats v, printable_items items⟩

theorem printable_members (members : List (Text × Json F)) : ∀ p ∈ members,
    (∀ x, Printable (py.dumpsFloat x)) ∨ FloatFree p.2 → Printable (dumps py false p.2) := by
  cases members with
  | nil => simp
  | cons p members =>
    rw [List.forall_mem_cons]
    exact ⟨printable_dumps_of_floats p.2, printable_members members⟩

end

theorem printable_dumps (v : Json F) (h : FloatFree v) : Printable (dumps py false v) :=
  printable_dumps_of_floats py v (.inr h)

end Json

end GroundedOps.Python
