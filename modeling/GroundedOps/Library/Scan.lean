import Mathlib.Data.List.Basic
import Mathlib.Data.List.Infix
import Mathlib.Tactic

/-!
# Leftmost non-overlapping matching

A matcher is tried at every position from left to right. Where it succeeds the
scan emits its value and continues behind the match; elsewhere one symbol is
emitted and the scan moves on by one. Substitution and match enumeration of a
regular-expression engine are both read off the resulting segmentation.
-/

namespace GroundedOps.Scan

variable {α β : Type*}

/-- A partial parser at the head of its input that never succeeds for free. -/
structure Matcher (α β : Type*) where
  run : List α → Option (β × List α)
  shorter : ∀ {s b r}, run s = some (b, r) → r.length < s.length

@[simp] theorem Matcher.run_nil (m : Matcher α β) : m.run [] = none := by
  cases h : m.run [] with
  | none => rfl
  | some p => exact absurd (m.shorter (r := p.2) (b := p.1) h) (by simp)

def scanFuel (m : Matcher α β) : ℕ → List α → List (α ⊕ β)
  | 0, _ => []
  | _ + 1, [] => []
  | fuel + 1, c :: s =>
    match m.run (c :: s) with
    | some (b, r) => .inr b :: scanFuel m fuel r
    | none => .inl c :: scanFuel m fuel s

/-- Every step consumes input, so the length of the text is enough fuel. -/
def scan (m : Matcher α β) (s : List α) : List (α ⊕ β) := scanFuel m s.length s

def findAll (m : Matcher α β) (s : List α) : List β := (scan m s).filterMap Sum.getRight?

def sub (m : Matcher α β) (f : β → List α) (s : List α) : List α :=
  (scan m s).flatMap (Sum.elim (fun c => [c]) f)

/-- The segmentations a left-to-right scan can produce. -/
inductive Scanned (m : Matcher α β) : List α → List (α ⊕ β) → Prop
  | nil : Scanned m [] []
  | skip {c s segs} : m.run (c :: s) = none → Scanned m s segs →
      Scanned m (c :: s) (.inl c :: segs)
  | hit {s b r segs} : m.run s = some (b, r) → Scanned m r segs → Scanned m s (.inr b :: segs)

theorem scanned_scanFuel (m : Matcher α β) (fuel : ℕ) (s : List α) (h : s.length ≤ fuel) :
    Scanned m s (scanFuel m fuel s) := by
  induction fuel generalizing s with
  | zero =>
    obtain rfl : s = [] := List.eq_nil_of_length_eq_zero (Nat.le_zero.mp h)
    exact .nil
  | succ fuel ih =>
    cases s with
    | nil => exact .nil
    | cons c s =>
      cases hr : m.run (c :: s) with
      | none =>
        simp only [scanFuel, hr]
        exact .skip hr (ih s (by simpa using h))
      | some p =>
        obtain ⟨b, r⟩ := p
        have hlt := m.shorter hr
        simp only [scanFuel, hr]
        exact .hit hr (ih r (by simp only [List.length_cons] at h hlt; omega))

theorem scanned_scan (m : Matcher α β) (s : List α) : Scanned m s (scan m s) :=
  scanned_scanFuel m s.length s le_rfl

theorem Scanned.unique {m : Matcher α β} {s : List α} {x y : List (α ⊕ β)}
    (hx : Scanned m s x) (hy : Scanned m s y) : x = y := by
  induction hx generalizing y with
  | nil =>
    cases hy with
    | nil => rfl
    | hit h _ => simp at h
  | skip h _ ih =>
    cases hy with
    | skip _ hy => rw [ih hy]
    | hit h' _ => simp [h] at h'
  | hit h _ ih =>
    cases hy with
    | nil => simp at h
    | skip h' _ => simp [h] at h'
    | hit h' hy =>
      rw [h] at h'
      cases h'
      rw [ih hy]

theorem Scanned.eq_scan {m : Matcher α β} {s : List α} {segs : List (α ⊕ β)}
    (h : Scanned m s segs) : segs = scan m s :=
  h.unique (scanned_scan m s)

@[simp] theorem scan_nil (m : Matcher α β) : scan m [] = [] := rfl

theorem scan_skip {m : Matcher α β} {c : α} {s : List α} (h : m.run (c :: s) = none) :
    scan m (c :: s) = .inl c :: scan m s :=
  (Scanned.skip h (scanned_scan m s)).eq_scan.symm

theorem scan_hit {m : Matcher α β} {s r : List α} {b : β} (h : m.run s = some (b, r)) :
    scan m s = .inr b :: scan m r :=
  (Scanned.hit h (scanned_scan m r)).eq_scan.symm

/-- Induction along the scan: skipped symbols and matches are its two steps. -/
@[elab_as_elim]
theorem scan_induction (m : Matcher α β) {motive : List α → Prop} (nil : motive [])
    (skip : ∀ c s, m.run (c :: s) = none → motive s → motive (c :: s))
    (hit : ∀ s b r, m.run s = some (b, r) → motive r → motive s) (s : List α) : motive s := by
  have h := scanned_scan m s
  generalize scan m s = segs at h
  induction h with
  | nil => exact nil
  | skip h _ ih => exact skip _ _ h ih
  | hit h _ ih => exact hit _ _ _ h ih

variable {m : Matcher α β} {f : β → List α}

@[simp] theorem sub_nil : sub m f [] = [] := rfl

theorem sub_skip {c : α} {s : List α} (h : m.run (c :: s) = none) :
    sub m f (c :: s) = c :: sub m f s := by
  simp [sub, scan_skip h]

theorem sub_hit {s r : List α} {b : β} (h : m.run s = some (b, r)) :
    sub m f s = f b ++ sub m f r := by
  simp [sub, scan_hit h]

@[simp] theorem findAll_nil : findAll m [] = [] := rfl

theorem findAll_skip {c : α} {s : List α} (h : m.run (c :: s) = none) :
    findAll m (c :: s) = findAll m s := by
  rw [findAll, scan_skip h]
  rfl

theorem findAll_hit {s r : List α} {b : β} (h : m.run s = some (b, r)) :
    findAll m s = b :: findAll m r := by
  rw [findAll, scan_hit h]
  rfl

theorem run_of_mem_findAll {s : List α} {b : β} (h : b ∈ findAll m s) :
    ∃ t r, m.run t = some (b, r) := by
  induction s using scan_induction m with
  | nil => simp at h
  | skip c s hrun ih => exact ih (by rwa [findAll_skip hrun] at h)
  | hit s b' r hrun ih =>
    rw [findAll_hit hrun, List.mem_cons] at h
    obtain rfl | h := h
    · exact ⟨s, r, hrun⟩
    · exact ih h

/-- No match of `m` starts inside the prefix `u` of `u ++ v`. -/
def Quiet (m : Matcher α β) (u v : List α) : Prop :=
  ∀ pre c post, u = pre ++ c :: post → m.run (c :: post ++ v) = none

theorem Quiet.tail {m : Matcher α β} {c : α} {u v : List α} (h : Quiet m (c :: u) v) :
    Quiet m u v := by
  intro pre d post hu
  exact h (c :: pre) d post (by simp [hu])

theorem scan_append_of_quiet {m : Matcher α β} {u v : List α} (h : Quiet m u v) :
    scan m (u ++ v) = u.map .inl ++ scan m v := by
  induction u with
  | nil => rfl
  | cons c u ih =>
    have hc : m.run (c :: (u ++ v)) = none := h [] c u rfl
    rw [List.cons_append, scan_skip hc, ih h.tail]
    rfl

/-- Conversely, a scan that copies the symbols of a prefix found no match in it. -/
theorem quiet_of_scan {m : Matcher α β} {u v : List α} {segs : List (α ⊕ β)}
    (h : scan m (u ++ v) = u.map .inl ++ segs) : Quiet m u v ∧ scan m v = segs := by
  induction u with
  | nil => exact ⟨fun pre c post hu => by simp at hu, h⟩
  | cons c u ih =>
    cases hr : m.run (c :: (u ++ v)) with
    | some p =>
      rw [List.cons_append, scan_hit (b := p.1) (r := p.2) hr] at h
      simp at h
    | none =>
      rw [List.cons_append, scan_skip hr] at h
      simp only [List.map_cons, List.cons_append, List.cons.injEq, true_and] at h
      obtain ⟨hq, hs⟩ := ih h
      refine ⟨fun pre d post hu => ?_, hs⟩
      cases pre with
      | nil =>
        obtain ⟨rfl, rfl⟩ : c = d ∧ u = post := by simpa using hu
        exact hr
      | cons x pre => exact hq pre d post (by simpa using (List.cons.inj hu).2)

section SplitFirst

variable [DecidableEq α]

/-- The text before and behind the first occurrence of `pat`. -/
def splitFirst (pat : List α) : List α → Option (List α × List α)
  | [] => if pat = [] then some ([], []) else none
  | c :: s =>
    if pat.isPrefixOf (c :: s) then some ([], (c :: s).drop pat.length)
    else (splitFirst pat s).map fun (b, r) => (c :: b, r)

theorem splitFirst_eq_some {pat s b r : List α} (h : splitFirst pat s = some (b, r)) :
    s = b ++ pat ++ r := by
  induction s generalizing b with
  | nil =>
    simp only [splitFirst] at h
    split_ifs at h with hp
    cases h
    simp [hp]
  | cons c s ih =>
    simp only [splitFirst] at h
    split_ifs at h with hp
    · cases h
      obtain ⟨t, ht⟩ := List.isPrefixOf_iff_prefix.mp hp
      simp [← ht]
    · cases hs : splitFirst pat s with
      | none => simp [hs] at h
      | some p =>
        obtain ⟨b', r'⟩ := p
        simp only [hs, Option.map_some, Option.some.injEq, Prod.mk.injEq] at h
        obtain ⟨rfl, rfl⟩ := h
        simp [ih hs]

theorem splitFirst_eq_none {pat s : List α} : splitFirst pat s = none ↔ ¬ pat <:+: s := by
  induction s with
  | nil => by_cases h : pat = [] <;> simp [splitFirst, h]
  | cons c s ih =>
    simp only [splitFirst, List.infix_cons_iff, not_or, ← ih]
    by_cases hp : pat.isPrefixOf (c :: s)
    · simp [hp, List.isPrefixOf_iff_prefix.mp hp]
    · have hn : ¬ pat <+: c :: s := fun h => hp (List.isPrefixOf_iff_prefix.mpr h)
      simp [hp, hn]

/-- A delimiter whose first symbol does not recur in it cannot straddle the end
of the text in front of it. -/
theorem splitFirst_of_not_infix {a : α} {p content rest : List α} (ha : a ∉ p)
    (h : ¬ (a :: p) <:+: content) :
    splitFirst (a :: p) (content ++ (a :: p) ++ rest) = some (content, rest) := by
  induction content with
  | nil => simp [splitFirst, List.isPrefixOf_iff_prefix]
  | cons c content ih =>
    have hc : ¬ (a :: p) <:+: content := fun hi => h (List.infix_cons hi)
    have hp : (a :: p).isPrefixOf (c :: content ++ (a :: p) ++ rest) = false := by
      rw [Bool.eq_false_iff]
      intro hpre
      rw [List.isPrefixOf_iff_prefix, List.append_assoc] at hpre
      rcases List.prefix_or_prefix_of_prefix hpre (List.prefix_append (c :: content) _) with
        hin | ⟨t, ht⟩
      · exact h hin.isInfix
      · cases t with
        | nil => exact h (by simp [← ht])
        | cons x t =>
          rw [← ht, List.prefix_append_right_inj] at hpre
          have hx : x = a := by
            obtain ⟨z, hz⟩ := hpre
            exact (List.cons.inj hz).1.trans (List.cons.inj ht).1
          have hmem : x ∈ p := by
            have hp : content ++ x :: t = p := (List.cons.inj ht).2
            simp [← hp]
          exact ha (hx ▸ hmem)
    simp only [List.cons_append, splitFirst] at hp ⊢
    rw [hp, if_neg (by simp)]
    simp only [List.cons_append, List.append_assoc] at ih ⊢
    rw [ih hc]
    rfl

/-- The text in front of the first occurrence holds no occurrence itself. -/
theorem not_infix_of_splitFirst {pat s b r : List α} (hpat : pat ≠ [])
    (h : splitFirst pat s = some (b, r)) : ¬ pat <:+: b := by
  induction s generalizing b with
  | nil => simp [splitFirst, hpat] at h
  | cons c s ih =>
    simp only [splitFirst] at h
    split_ifs at h with hp
    · cases h
      simpa using hpat
    · cases hs : splitFirst pat s with
      | none => simp [hs] at h
      | some q =>
        obtain ⟨b', r'⟩ := q
        simp only [hs, Option.map_some, Option.some.injEq, Prod.mk.injEq] at h
        obtain ⟨rfl, rfl⟩ := h
        rw [List.infix_cons_iff, not_or]
        refine ⟨fun hpre => hp ?_, ih hs⟩
        rw [List.isPrefixOf_iff_prefix, splitFirst_eq_some hs, List.append_assoc]
        exact hpre.trans (List.prefix_append (c :: b') _)

end SplitFirst

end GroundedOps.Scan
