import GroundedOps.Python.CodePoints

/-!
# Where string literals are open

A written value is read from left to right, with a note of whether a string
literal is open. Outside of literals it has no backslash and a colon is followed
by a blank, so two colons in a row lie inside a literal, and no part behind them
can be a written value of its own.
-/

namespace GroundedOps.Python

/-- What is known of a text that has been read up to some point. -/
inductive Lexer
  | outside
  | colon
  | inside
  | escaped
  | broken
  deriving DecidableEq

namespace Lexer

def next (l : Lexer) (c : Char) : Lexer :=
  match l with
  | outside =>
    if c = '"' then inside else if c = '\\' then broken else if c = ':' then colon else outside
  | colon => if c = ' ' then outside else broken
  | inside => if c = '"' then outside else if c = '\\' then escaped else inside
  | escaped => inside
  | broken => broken

def read (l : Lexer) (text : Text) : Lexer := text.foldl next l

theorem read_append (l : Lexer) (s t : Text) : l.read (s ++ t) = (l.read s).read t :=
  List.foldl_append

@[simp] theorem read_nil (l : Lexer) : l.read [] = l := rfl

@[simp] theorem read_cons (l : Lexer) (c : Char) (t : Text) :
    l.read (c :: t) = (l.next c).read t := rfl

theorem read_broken (t : Text) : broken.read t = broken := by
  induction t with
  | nil => rfl
  | cons c t ih => exact ih

/-! ### Opposite readings -/

/-- Of two readings one has a literal open where the other has none, unless one broke. -/
def Opposed (l k : Lexer) : Prop :=
  (l = outside ∨ l = colon) ∧ k = inside ∨ l = inside ∧ (k = outside ∨ k = colon) ∨
    l = broken ∨ k = broken

theorem Opposed.symm {l k : Lexer} (h : Opposed l k) : Opposed k l := by
  unfold Opposed at h ⊢
  tauto

theorem opposed_next_inside {l : Lexer} (h : l = outside ∨ l = colon) (c : Char) :
    Opposed (l.next c) (inside.next c) := by
  rcases h with rfl | rfl
  · by_cases hquote : c = '"'
    · simp [next, Opposed, hquote]
    · by_cases hslash : c = '\\'
      · simp [next, Opposed, hslash]
      · by_cases hcolon : c = ':'
        · simp [next, Opposed, hcolon]
        · simp [next, Opposed, hquote, hslash, hcolon]
  · by_cases hblank : c = ' '
    · simp [next, Opposed, hblank]
    · simp [next, Opposed, hblank]

theorem Opposed.next {l k : Lexer} (h : Opposed l k) (c : Char) :
    Opposed (l.next c) (k.next c) := by
  rcases h with ⟨hl, rfl⟩ | ⟨rfl, hk⟩ | rfl | rfl
  · exact opposed_next_inside hl c
  · exact (opposed_next_inside hk c).symm
  · exact .inr (.inr (.inl rfl))
  · exact .inr (.inr (.inr rfl))

theorem Opposed.read {l k : Lexer} (h : Opposed l k) (t : Text) :
    Opposed (l.read t) (k.read t) := by
  induction t generalizing l k with
  | nil => exact h
  | cons c t ih => exact ih (h.next c)

/-- No text closes all its literals both from outside and from inside of one. -/
theorem not_both_closed {t : Text} (houtside : outside.read t = outside)
    (hinside : inside.read t = outside) : False := by
  have h : Opposed (outside.read t) (inside.read t) :=
    Opposed.read (.inl ⟨.inl rfl, rfl⟩) t
  rw [houtside, hinside] at h
  simp [Opposed] at h

theorem read_colons (l : Lexer) : l.read [':', ':'] = inside ∨ l.read [':', ':'] = broken := by
  cases l <;> decide

/-- No text behind two colons of a closed text is closed. -/
theorem not_closed_behind_colons {s t : Text} (h : outside.read (s ++ [':', ':'] ++ t) = outside)
    (ht : outside.read t = outside) : False := by
  rw [read_append, read_append] at h
  rcases read_colons (outside.read s) with hs | hs
  · rw [hs] at h
    exact not_both_closed ht h
  · rw [hs, read_broken] at h
    cases h

/-- A name, two colons and a closed text that does not start with a colon are split off
in one way only. -/
theorem split_inj {m n : Str} {s t : Text} (hs : outside.read s = outside)
    (ht : outside.read t = outside) (hs' : s.head? ≠ some ':') (ht' : t.head? ≠ some ':')
    (h : m ++ codes (':' :: ':' :: s) = n ++ codes (':' :: ':' :: t)) : m = n ∧ s = t := by
  have key : ∀ {s t a : Text}, outside.read s = outside → outside.read t = outside →
      s.head? ≠ some ':' → ':' :: ':' :: s = a ++ ':' :: ':' :: t → a = [] := by
    intro s t a hs ht hs' hst
    match a with
    | [] => rfl
    | [c] =>
      simp only [List.cons_append, List.nil_append, List.cons.injEq] at hst
      exact absurd (by rw [hst.2.2, List.head?_cons]) hs'
    | c :: d :: a =>
      simp only [List.cons_append, List.cons.injEq] at hst
      have hclosed : outside.read (a ++ [':', ':'] ++ t) = outside := by
        rw [List.append_assoc]
        exact hst.2.2 ▸ hs
      exact (not_closed_behind_colons hclosed ht).elim
  rcases List.append_eq_append_iff.mp h with ⟨a, hnames, hst⟩ | ⟨a, hnames, hst⟩
  · obtain ⟨a', t', hsplit, rfl, htail⟩ := List.map_eq_append_iff.mp hst
    obtain rfl := codes_injective htail
    obtain rfl := key hs ht hs' hsplit
    rw [List.map_nil, List.append_nil] at hnames
    exact ⟨hnames.symm, by simpa using hsplit⟩
  · obtain ⟨a', t', hsplit, rfl, htail⟩ := List.map_eq_append_iff.mp hst
    obtain rfl := codes_injective htail
    obtain rfl := key ht hs ht' hsplit
    rw [List.map_nil, List.append_nil] at hnames
    exact ⟨hnames, by simpa using hsplit.symm⟩

/-! ### Written values -/

theorem read_inside_of_quiet {t : Text} (h : ∀ c ∈ t, c ≠ '"' ∧ c ≠ '\\') :
    inside.read t = inside := by
  induction t with
  | nil => rfl
  | cons c t ih =>
    obtain ⟨hquote, hslash⟩ := h c (by simp)
    rw [read_cons, next, if_neg hquote, if_neg hslash]
    exact ih fun d hd => h d (by simp [hd])

theorem read_outside_of_quiet {t : Text} (h : ∀ c ∈ t, c ≠ '"' ∧ c ≠ '\\' ∧ c ≠ ':') :
    outside.read t = outside := by
  induction t with
  | nil => rfl
  | cons c t ih =>
    obtain ⟨hquote, hslash, hcolon⟩ := h c (by simp)
    rw [read_cons, next, if_neg hquote, if_neg hslash, if_neg hcolon]
    exact ih fun d hd => h d (by simp [hd])

theorem hexDigit_quiet : ∀ n < 16, hexDigit n ≠ '"' ∧ hexDigit n ≠ '\\' := by decide

theorem read_unicodeEscape (n : ℕ) : inside.read (unicodeEscape n) = inside := by
  rw [unicodeEscape, read_cons, read_cons]
  apply read_inside_of_quiet
  intro c hc
  simp only [List.mem_cons, List.not_mem_nil, or_false] at hc
  rcases hc with rfl | rfl | rfl | rfl
  all_goals exact hexDigit_quiet _ (by omega)

theorem read_escapeChar (c : Char) : inside.read (escapeChar c) = inside := by
  have h := escaped_escapeChar c
  generalize escapeChar c = w at h
  cases h with
  | short hmem =>
    fin_cases hmem
    all_goals rfl
  | plain hquote hslash _ => exact read_inside_of_quiet (by simp [hquote, hslash])
  | unit _ => exact read_unicodeEscape _
  | pair _ => rw [read_append, read_unicodeEscape, read_unicodeEscape]

theorem read_escapeCode (c : CodePoint) : inside.read (escapeCode c) = inside := by
  unfold escapeCode
  split_ifs
  · exact read_escapeChar _
  · exact read_unicodeEscape _

theorem read_quoteStr (s : Str) : outside.read (quoteStr s) = outside := by
  have hbody : inside.read (s.flatMap escapeCode) = inside := by
    induction s with
    | nil => rfl
    | cons c s ih => rw [List.flatMap_cons, read_append, read_escapeCode, ih]
  rw [quoteStr, List.cons_append, read_cons]
  change inside.read (s.flatMap escapeCode ++ ['"']) = outside
  rw [read_append, hbody]
  rfl

theorem read_strInt (n : ℤ) : outside.read (strInt n) = outside := by
  apply read_outside_of_quiet
  intro c hc
  have hdigit : c = '-' ∨ c.isDigit = true := by
    unfold strInt at hc
    split_ifs at hc
    · rcases List.mem_cons.mp hc with rfl | hc
      · exact .inl rfl
      · exact .inr (isDigit_of_mem_str hc)
    · exact .inr (isDigit_of_mem_str hc)
  rcases hdigit with rfl | hdigit
  · decide
  · refine ⟨?_, ?_, ?_⟩ <;> rintro rfl <;> exact absurd hdigit (by decide)

theorem read_intercalate {parts : List Text} (h : ∀ p ∈ parts, outside.read p = outside) :
    outside.read ([',', ' '].intercalate parts) = outside := by
  have happend : ∀ s t, outside.read s = outside → outside.read t = outside →
      outside.read (s ++ t) = outside := by
    intro s t hs ht
    rw [read_append, hs, ht]
  exact intercalate_of_append (P := fun s => outside.read s = outside) rfl happend rfl h

end Lexer

end GroundedOps.Python
