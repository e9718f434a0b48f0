import GroundedOps.Library.Scan
import GroundedOps.Agent.CitationRegistry

/-!
# Citation post-validation

The answer is rewritten in one left-to-right pass that drops every citation the
registry does not hold; afterwards runs of blanks are collapsed and the text is
trimmed. Dropping a citation joins its neighbours, so the pass can create a
citation that was not there: `[[9]9]` becomes `[9]`.
-/

namespace GroundedOps.Agent

open Python Scan

/-- The pattern `\[(\d+)\]` at the head of the text. -/
def citeAt : Text → Option (Text × Text)
  | '[' :: s =>
    match s.takeWhile isDecimal, s.dropWhile isDecimal with
    | d :: digits, ']' :: rest => some (d :: digits, rest)
    | _, _ => none
  | _ => none

def citation (digits : Text) : Text := '[' :: digits ++ [']']

def Digits (w : Text) : Prop := w ≠ [] ∧ ∀ c ∈ w, isDecimal c = true

instance (w : Text) : Decidable (Digits w) :=
  decidable_of_iff (w ≠ [] ∧ w.all isDecimal = true) (by simp [Digits])

theorem citeAt_eq_some {s w r : Text} :
    citeAt s = some (w, r) ↔ s = citation w ++ r ∧ Digits w := by
  constructor
  · intro h
    unfold citeAt at h
    split at h
    · next s =>
      split at h
      · next d digits rest htake hdrop =>
        cases h
        have hs : s = (d :: digits) ++ ']' :: r := by
          rw [← htake, ← hdrop, List.takeWhile_append_dropWhile]
        refine ⟨by simp [citation, hs], by simp, fun c hc => ?_⟩
        exact List.mem_takeWhile_imp (htake ▸ hc)
      · cases h
    · cases h
  · rintro ⟨rfl, hne, hdec⟩
    have hsplit : (w ++ ']' :: r).takeWhile isDecimal = w ∧
        (w ++ ']' :: r).dropWhile isDecimal = ']' :: r := by
      have hclose : isDecimal ']' = false := by decide
      constructor
      · rw [List.takeWhile_append_of_pos hdec, List.takeWhile_cons_of_neg (by simp [hclose]),
          List.append_nil]
      · rw [List.dropWhile_append_of_pos hdec, List.dropWhile_cons_of_neg (by simp [hclose])]
    cases w with
    | nil => exact absurd rfl hne
    | cons d w =>
      simp only [citation, List.cons_append, List.append_assoc, List.nil_append, citeAt] at hsplit ⊢
      rw [hsplit.1, hsplit.2]
      rfl

def cite : Matcher Char Text where
  run := citeAt
  shorter h := by
    obtain ⟨rfl, -, -⟩ := citeAt_eq_some.mp h
    simp [citation]
    omega

/-- The pattern ` {2,}` at the head of the text. -/
def blanksAt : Text → Option (Unit × Text)
  | ' ' :: ' ' :: s => some ((), s.dropWhile (· == ' '))
  | _ => none

theorem blanksAt_eq_some {s r : Text} (h : blanksAt s = some ((), r)) :
    ∃ n, s = List.replicate (n + 2) ' ' ++ r ∧ r.head? ≠ some ' ' := by
  unfold blanksAt at h
  split at h
  · next s =>
    cases h
    refine ⟨(s.takeWhile (· == ' ')).length, ?_, ?_⟩
    · have hrep : s.takeWhile (· == ' ') = List.replicate (s.takeWhile (· == ' ')).length ' ' :=
        List.eq_replicate_of_mem fun c hc => by simpa using List.mem_takeWhile_imp hc
      rw [List.replicate_succ, List.replicate_succ, List.cons_append, List.cons_append, ← hrep,
        List.takeWhile_append_dropWhile]
    · intro hh
      have hnot := List.head?_dropWhile_not (· == ' ') s
      simp [hh] at hnot
  · cases h

def blanks : Matcher Char Unit where
  run := blanksAt
  shorter h := by
    obtain ⟨n, rfl, -⟩ := blanksAt_eq_some h
    simp

def collapse (s : Text) : Text := sub blanks (fun _ => [' ']) s

/-- Whether `_replace` keeps a citation with these digits. -/
def held (registry : CitationRegistry) (digits : Text) : Bool :=
  match intDigits digits with
  | .ok index => registry.hasIndex index
  | .error _ => false

/-- The calls of `_replace` along the scan, with the set `used` they extend. -/
def replaceFrom (registry : CitationRegistry) :
    List (Char ⊕ Text) → List ℕ → Except Exn (Text × List ℕ)
  | [], used => .ok ([], used)
  | .inl c :: segs, used => do
    let (text, used) ← replaceFrom registry segs used
    .ok (c :: text, used)
  | .inr digits :: segs, used => do
    let index ← intDigits digits
    if registry.hasIndex index then
      let (text, used) ← replaceFrom registry segs (used.insert index)
      .ok (citation digits ++ text, used)
    else replaceFrom registry segs used

def validateAndStrip (answer : Text) (registry : CitationRegistry) :
    Except Exn (Text × List ℕ) := do
  let (cleaned, used) ← replaceFrom registry (scan cite answer) []
  .ok (strip (collapse cleaned), used.insertionSort (· ≤ ·))

/-! ### Whitespace -/

theorem infix_cons_of_notMem {x c : Char} {X t : Text} (hc : c ∉ x :: X) :
    (x :: X) <:+: c :: t ↔ (x :: X) <:+: t := by
  rw [List.infix_cons_iff]
  refine or_iff_right fun hp => hc ?_
  obtain ⟨u, hu⟩ := hp
  rw [← (List.cons.inj hu).1]
  exact List.mem_cons_self

theorem collapse_skip {c : Char} {s : Text} (h : blanksAt (c :: s) = none) :
    collapse (c :: s) = c :: collapse s :=
  sub_skip (m := blanks) h

theorem collapse_hit {s r : Text} (h : blanksAt s = some ((), r)) :
    collapse s = ' ' :: collapse r :=
  sub_hit (m := blanks) (b := ()) h

theorem blanksAt_of_ne {c : Char} {s : Text} (h : c ≠ ' ') : blanksAt (c :: s) = none := by
  unfold blanksAt
  split
  · next heq => exact absurd (List.cons.inj heq).1 h
  · rfl

theorem prefix_collapse {X : Text} (hX : ' ' ∉ X) (s : Text) : X <+: collapse s ↔ X <+: s := by
  induction s using scan_induction blanks generalizing X with
  | nil => rfl
  | skip c s h ih =>
    rw [collapse_skip h]
    cases X with
    | nil => simp
    | cons x X =>
      rw [List.cons_prefix_cons, List.cons_prefix_cons, ih (fun h => hX (by simp [h]))]
  | hit s b r h ih =>
    replace h : blanksAt s = some ((), r) := h
    have hc := collapse_hit h
    obtain ⟨n, rfl, -⟩ := blanksAt_eq_some h
    rw [hc]
    cases X with
    | nil => simp
    | cons x X =>
      have hx : x ≠ ' ' := fun hx => hX (by simp [hx])
      simp [List.replicate_succ, hx]

/-- Collapsing blanks neither makes nor breaks a pattern without blanks. -/
theorem infix_collapse {x : Char} {X : Text} (hX : ' ' ∉ x :: X) (s : Text) :
    (x :: X) <:+: collapse s ↔ (x :: X) <:+: s := by
  induction s using scan_induction blanks with
  | nil => rfl
  | skip c s h ih =>
    have hp := prefix_collapse hX (c :: s)
    rw [collapse_skip h] at hp ⊢
    rw [List.infix_cons_iff, List.infix_cons_iff, ih, hp]
  | hit s b r h ih =>
    replace h : blanksAt s = some ((), r) := h
    have hc := collapse_hit h
    obtain ⟨n, rfl, -⟩ := blanksAt_eq_some h
    have hrep : ∀ k, (x :: X) <:+: List.replicate k ' ' ++ r ↔ (x :: X) <:+: r := by
      intro k
      induction k with
      | zero => rfl
      | succ k ihk => rw [List.replicate_succ, List.cons_append, infix_cons_of_notMem hX, ihk]
    rw [hc, infix_cons_of_notMem hX, ih, hrep]

theorem head?_collapse {s : Text} (h : s.head? ≠ some ' ') : (collapse s).head? ≠ some ' ' := by
  cases s with
  | nil => exact h
  | cons c s =>
    have hc : c ≠ ' ' := by simpa using h
    rw [collapse_skip (blanksAt_of_ne hc)]
    exact h

theorem not_infix_collapse (s : Text) : ¬ [' ', ' '] <:+: collapse s := by
  have hcons : ∀ (c : Char) (t : Text), (c = ' ' → t.head? ≠ some ' ') →
      ¬ [' ', ' '] <:+: t → ¬ [' ', ' '] <:+: c :: t := by
    intro c t hc ht
    rw [List.infix_cons_iff, not_or]
    refine ⟨fun hp => ?_, ht⟩
    obtain ⟨u, hu⟩ := hp
    obtain ⟨h₁, h₂⟩ := List.cons.inj hu
    exact hc h₁.symm (by simp [← h₂])
  induction s using scan_induction blanks with
  | nil => exact fun h => absurd (List.infix_nil.mp h) (by simp)
  | skip c s h ih =>
    rw [collapse_skip h]
    refine hcons c _ (fun hc => head?_collapse fun hs => ?_) ih
    cases s with
    | nil => simp at hs
    | cons d s =>
      obtain rfl : d = ' ' := by simpa using hs
      subst hc
      simp [blanks, blanksAt] at h
  | hit s b r h ih =>
    replace h : blanksAt s = some ((), r) := h
    obtain ⟨n, -, hr⟩ := blanksAt_eq_some h
    rw [collapse_hit h]
    exact hcons ' ' _ (fun _ => head?_collapse hr) ih

theorem collapse_eq_self {s : Text} (h : ¬ [' ', ' '] <:+: s) : collapse s = s := by
  induction s with
  | nil => rfl
  | cons c s ih =>
    have hnone : blanksAt (c :: s) = none := by
      unfold blanksAt
      split
      · next heq =>
        rw [heq] at h
        exact absurd (List.prefix_append [' ', ' '] _).isInfix h
      · rfl
    rw [collapse_skip hnone, ih fun hs => h (List.infix_cons hs)]

theorem infix_dropWhile {x : Char} {X : Text} {p : Char → Bool} (hX : ∀ c ∈ x :: X, p c = false)
    (s : Text) : (x :: X) <:+: s.dropWhile p ↔ (x :: X) <:+: s := by
  induction s with
  | nil => rfl
  | cons c s ih =>
    by_cases hc : p c = true
    · have hno : c ∉ x :: X := fun hm => by simp [hX c hm] at hc
      rw [List.dropWhile_cons_of_pos hc, ih, infix_cons_of_notMem hno]
    · rw [List.dropWhile_cons_of_neg hc]

theorem infix_strip {X : Text} (hne : X ≠ []) (hX : ∀ c ∈ X, isSpace c = false) (s : Text) :
    X <:+: strip s ↔ X <:+: s := by
  obtain ⟨x, Y, hY⟩ := List.exists_cons_of_ne_nil (List.reverse_ne_nil_iff.mpr hne)
  have hrev : ∀ c ∈ x :: Y, isSpace c = false := fun c hc => hX c (by
    rw [← List.mem_reverse, hY]
    exact hc)
  obtain ⟨z, Z, rfl⟩ := List.exists_cons_of_ne_nil hne
  rw [strip, stripBy, List.rdropWhile, ← List.reverse_infix, List.reverse_reverse, hY,
    infix_dropWhile hrev, ← hY, List.reverse_infix, infix_dropWhile hX]

theorem strip_isInfix (s : Text) : strip s <:+: s :=
  (List.rdropWhile_prefix _ _).isInfix.trans (List.dropWhile_suffix _).isInfix

theorem strip_strip (s : Text) : strip (strip s) = strip s := by
  have hfront : (strip s).dropWhile isSpace = strip s := by
    cases hs : strip s with
    | nil => rfl
    | cons c t =>
      obtain ⟨u, hu⟩ := List.rdropWhile_prefix isSpace (s.dropWhile isSpace)
      rw [strip, stripBy] at hs
      have hnot := List.head?_dropWhile_not isSpace s
      rw [← hu, hs] at hnot
      rw [List.dropWhile_cons_of_neg (by simpa using hnot)]
  rw [strip, stripBy, hfront, strip, stripBy, List.rdropWhile_idempotent]

end GroundedOps.Agent
