import Mathlib.Algebra.Order.Floor.Ring
import Mathlib.Data.List.Forall2
import Mathlib.Data.List.Sort
import Mathlib.Tactic

/-!
# Interpolated order statistics

A sequence over the integers is read between its positions along straight lines. A monotone
sequence stays monotone, and a larger sequence is larger everywhere. The sequences here are
sorted lists, whose elements grow with every element of the list they are sorted from.
-/

namespace GroundedOps

/-! ### Straight lines between positions -/

section Lines

variable {K : Type*} [Field K] [LinearOrder K] [FloorRing K] {f g : ℤ → K} {x y : K}

def interpolate (f : ℤ → K) (x : K) : K := f ⌊x⌋ + (f (⌊x⌋ + 1) - f ⌊x⌋) * Int.fract x

theorem interpolate_of_floor_eq_ceil (h : ⌊x⌋ = ⌈x⌉) : interpolate f x = f ⌊x⌋ := by
  have hfract : Int.fract x = 0 := by
    rw [Int.fract, sub_eq_zero]
    apply le_antisymm
    · rw [h]
      exact Int.le_ceil x
    · exact Int.floor_le x
  rw [interpolate, hfract, mul_zero, add_zero]

variable [IsStrictOrderedRing K]

theorem ceil_eq_of_floor_ne (h : ⌊x⌋ ≠ ⌈x⌉) : ⌈x⌉ = ⌊x⌋ + 1 := by
  have hle := Int.floor_le_ceil x
  have hceil := Int.ceil_le_floor_add_one x
  omega

theorem interpolate_of_floor_ne_ceil (h : ⌊x⌋ ≠ ⌈x⌉) :
    interpolate f x = f ⌊x⌋ * (⌈x⌉ - x) + f ⌈x⌉ * (x - ⌊x⌋) := by
  rw [interpolate, ceil_eq_of_floor_ne h, Int.fract]
  push_cast
  ring

theorem le_interpolate (hf : Monotone f) : f ⌊x⌋ ≤ interpolate f x := by
  have hstep : f ⌊x⌋ ≤ f (⌊x⌋ + 1) := hf (by omega)
  have hgain := mul_nonneg (sub_nonneg.mpr hstep) (Int.fract_nonneg x)
  rw [interpolate]
  linarith

theorem interpolate_le (hf : Monotone f) : interpolate f x ≤ f (⌊x⌋ + 1) := by
  have hstep : f ⌊x⌋ ≤ f (⌊x⌋ + 1) := hf (by omega)
  have hgain := mul_le_of_le_one_right (sub_nonneg.mpr hstep) (Int.fract_lt_one x).le
  rw [interpolate]
  linarith

theorem interpolate_monotone (hf : Monotone f) : Monotone (interpolate f) := by
  intro x y hxy
  rcases (Int.floor_le_floor hxy).eq_or_lt with hsame | hless
  · -- on one line
    have hstep : f ⌊y⌋ ≤ f (⌊y⌋ + 1) := hf (by omega)
    have hfract : Int.fract x ≤ Int.fract y := by
      rw [Int.fract, Int.fract, hsame]
      linarith
    rw [interpolate, interpolate, hsame]
    have hgain := mul_le_mul_of_nonneg_left hfract (sub_nonneg.mpr hstep)
    linarith
  · calc
      interpolate f x ≤ f (⌊x⌋ + 1) := interpolate_le hf
      _ ≤ f ⌊y⌋ := hf (by omega)
      _ ≤ interpolate f y := le_interpolate hf

theorem interpolate_le_interpolate (h : ∀ i, f i ≤ g i) (x : K) :
    interpolate f x ≤ interpolate g x := by
  have hweights : ∀ f : ℤ → K, interpolate f x =
      f ⌊x⌋ * (1 - Int.fract x) + f (⌊x⌋ + 1) * Int.fract x := by
    intro f
    rw [interpolate]
    ring
  rw [hweights, hweights]
  have hleft := sub_nonneg.mpr (Int.fract_lt_one x).le
  gcongr
  · exact h ⌊x⌋
  · exact h (⌊x⌋ + 1)

end Lines

/-! ### Sorted lists as sequences -/

section Sorted

variable {K : Type*} [LinearOrder K] {l l' : List K}

/-- An element of a sorted list is at most `t` when enough elements are. -/
theorem getElem_le_iff_lt_countP (h : l.Pairwise (· ≤ ·)) {i : ℕ} (hi : i < l.length) (t : K) :
    l[i] ≤ t ↔ i < l.countP (· ≤ t) := by
  induction l generalizing i with
  | nil => cases hi
  | cons a l ih =>
    obtain ⟨hhead, htail⟩ := List.pairwise_cons.mp h
    by_cases ha : a ≤ t
    · rw [List.countP_cons_of_pos (by simpa using ha)]
      cases i with
      | zero => simpa using ha
      | succ i =>
        rw [List.getElem_cons_succ, ih htail (by simpa using hi)]
        omega
    · have hnone : l.countP (· ≤ t) = 0 := by
        rw [List.countP_eq_zero]
        intro b hb hle
        exact ha ((hhead b hb).trans (by simpa using hle))
      rw [List.countP_cons_of_neg (by simpa using ha), hnone]
      have hle : a ≤ (a :: l)[i] := by
        rcases List.mem_cons.mp (List.getElem_mem hi) with heq | hmem
        · exact heq.ge
        · exact hhead _ hmem
      constructor
      · intro hit
        exact absurd (hle.trans hit) ha
      · intro hlt
        omega

theorem countP_le_anti (h : List.Forall₂ (· ≤ ·) l l') (t : K) :
    l'.countP (· ≤ t) ≤ l.countP (· ≤ t) := by
  induction h with
  | nil => exact le_rfl
  | @cons a b l l' hab h ih =>
    rw [List.countP_cons, List.countP_cons]
    by_cases hb : b ≤ t
    · have ha : a ≤ t := hab.trans hb
      simp only [ha, hb, decide_true, if_true]
      omega
    · simp only [hb, decide_false, Bool.false_eq_true, if_false]
      omega

def sorted (l : List K) : List K := l.insertionSort (· ≤ ·)

theorem pairwise_sorted (l : List K) : (sorted l).Pairwise (· ≤ ·) :=
  List.pairwise_insertionSort _ l

theorem sorted_perm (l : List K) : (sorted l).Perm l := List.perm_insertionSort _ l

@[simp] theorem length_sorted (l : List K) : (sorted l).length = l.length :=
  (sorted_perm l).length_eq

theorem sorted_eq_of_perm (h : l.Perm l') : sorted l = sorted l' := by
  have hperm : (sorted l).Perm (sorted l') :=
    (sorted_perm l).trans (h.trans (sorted_perm l').symm)
  exact hperm.eq_of_pairwise (fun _ _ _ _ => le_antisymm) (pairwise_sorted l) (pairwise_sorted l')

theorem sorted_le_sorted (h : List.Forall₂ (· ≤ ·) l l') {i : ℕ} (hi : i < (sorted l).length)
    (hi' : i < (sorted l').length) : (sorted l)[i] ≤ (sorted l')[i] := by
  rw [getElem_le_iff_lt_countP (pairwise_sorted l) hi, (sorted_perm l).countP_eq]
  have hcount := countP_le_anti h (sorted l')[i]
  have hself := (getElem_le_iff_lt_countP (pairwise_sorted l') hi' _).mp le_rfl
  rw [(sorted_perm l').countP_eq] at hself
  omega

end Sorted

end GroundedOps
