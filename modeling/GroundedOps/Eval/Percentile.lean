import GroundedOps.Library.Interpolation
import GroundedOps.Python.Sequences
import GroundedOps.Python.Text
import Mathlib.Data.List.GetD

/-!
# Latency percentiles

A fraction of the way along the sorted values, read between two of them. The evaluation and
the benchmark have the same function each. For a fraction between zero and one only existing
positions are read.
-/

namespace GroundedOps.Eval

open Python

/-- `ordered[i]`, where a negative position counts from the end. -/
def readAt (ordered : List ℚ) (i : ℤ) : Except Exn ℚ :=
  match getItem? ordered i with
  | some value => .ok value
  | none => .error (.other "IndexError".toList)

/-- Where a fraction `p` of the way along `n` values is. -/
def position (n : ℕ) (p : ℚ) : ℚ := ((n : ℚ) - 1) * p

/-- The body that both functions share. `sorted` is the order of the values. -/
def linearPercentile (values : List ℚ) (p : ℚ) : Except Exn ℚ := do
  if values.isEmpty then return 0
  let ordered := sorted values
  let k := position ordered.length p
  let low := ⌊k⌋
  let high := ⌈k⌉
  if low = high then readAt ordered (toInt k)
  else do
    let below ← readAt ordered low
    let above ← readAt ordered high
    return below * (high - k) + above * (k - low)

def percentile (values : List ℚ) (p : ℚ) : Except Exn ℚ := linearPercentile values p

/-- `_percentile` of the benchmark. -/
def benchmarkPercentile (values : List ℚ) (p : ℚ) : Except Exn ℚ := linearPercentile values p

/-! ### The value as a point on a line -/

/-- A list as a sequence that goes on with its first and its last value. -/
def extended (l : List ℚ) (i : ℤ) : ℚ := l.getD (min i.toNat (l.length - 1)) 0

theorem extended_mem {l : List ℚ} (h : l ≠ []) (i : ℤ) : extended l i ∈ l := by
  have hpos := List.length_pos_iff.mpr h
  have hlt : min i.toNat (l.length - 1) < l.length := by omega
  rw [extended, List.getD_eq_getElem _ _ hlt]
  exact List.getElem_mem hlt

theorem extended_monotone {l : List ℚ} (h : l.Pairwise (· ≤ ·)) (hne : l ≠ []) :
    Monotone (extended l) := by
  intro i j hij
  have hpos := List.length_pos_iff.mpr hne
  have hi : min i.toNat (l.length - 1) < l.length := by omega
  have hj : min j.toNat (l.length - 1) < l.length := by omega
  have hle : min i.toNat (l.length - 1) ≤ min j.toNat (l.length - 1) := by omega
  rw [extended, extended, List.getD_eq_getElem _ _ hi, List.getD_eq_getElem _ _ hj]
  exact h.rel_get_of_le hle

theorem readAt_eq {l : List ℚ} {i : ℤ} (h0 : 0 ≤ i) (hlt : i < l.length) :
    readAt l i = .ok (extended l i) := by
  have hnat : i.toNat < l.length := by omega
  have hmin : min i.toNat (l.length - 1) = i.toNat := by omega
  have hread : getItem? l i = some l[i.toNat] := by
    rw [getItem?, if_pos h0, List.getElem?_eq_getElem hnat]
  rw [readAt, hread, extended, hmin, List.getD_eq_getElem _ _ hnat]

section Positions

variable {n : ℕ} {p q : ℚ}

theorem position_mono (hn : 0 < n) (h : p ≤ q) : position n p ≤ position n q := by
  have hone : (1 : ℚ) ≤ n := by exact_mod_cast hn
  exact mul_le_mul_of_nonneg_left h (by linarith)

/-- Only positions of the list are read. -/
theorem position_bounds (hn : 0 < n) (h0 : 0 ≤ p) (h1 : p ≤ 1) :
    0 ≤ ⌊position n p⌋ ∧ ⌊position n p⌋ ≤ ⌈position n p⌉ ∧ ⌈position n p⌉ < n := by
  have hzero : (0 : ℚ) ≤ position n p := by
    have := position_mono hn h0
    rwa [position, mul_zero] at this
  have hlast : position n p ≤ ((n : ℤ) - 1 : ℤ) := by
    have := position_mono hn h1
    rw [position, position, mul_one] at this
    push_cast
    exact this
  refine ⟨Int.floor_nonneg.mpr hzero, Int.floor_le_ceil _, ?_⟩
  have hceil := Int.ceil_le.mpr hlast
  omega

end Positions

theorem linearPercentile_eq {values : List ℚ} {p : ℚ} (hne : values ≠ []) (h0 : 0 ≤ p)
    (h1 : p ≤ 1) : linearPercentile values p =
      .ok (interpolate (extended (sorted values)) (position values.length p)) := by
  obtain ⟨hlow, hle, hhigh⟩ := position_bounds (List.length_pos_iff.mpr hne) h0 h1
  have hempty : values.isEmpty = false := by simpa using hne
  have hlength : (⌈position values.length p⌉ : ℤ) < (sorted values).length := by simpa using hhigh
  rw [linearPercentile, hempty]
  simp only [Bool.false_eq_true, if_false, length_sorted]
  split_ifs with heq
  · have hint : toInt (position values.length p) = ⌊position values.length p⌋ :=
      if_pos (Int.floor_nonneg.mp hlow)
    rw [interpolate_of_floor_eq_ceil heq, hint]
    exact readAt_eq hlow (hle.trans_lt hlength)
  · rw [readAt_eq hlow (hle.trans_lt hlength), readAt_eq (hlow.trans hle) hlength,
      interpolate_of_floor_ne_ceil heq]
    rfl

/-! ### Percentiles of a list -/

theorem extended_sorted_monotone {values : List ℚ} (hne : values ≠ []) :
    Monotone (extended (sorted values)) := by
  apply extended_monotone (pairwise_sorted values)
  intro hnil
  exact hne ((sorted_perm values).symm.trans (hnil ▸ List.Perm.refl _)).eq_nil

theorem extended_sorted_mem {values : List ℚ} (hne : values ≠ []) (i : ℤ) :
    extended (sorted values) i ∈ values := by
  apply (sorted_perm values).mem_iff.mp
  apply extended_mem
  intro hnil
  exact hne ((sorted_perm values).symm.trans (hnil ▸ List.Perm.refl _)).eq_nil

theorem extended_sorted_le {values values' : List ℚ} (hne : values ≠ [])
    (h : List.Forall₂ (· ≤ ·) values values') (i : ℤ) :
    extended (sorted values) i ≤ extended (sorted values') i := by
  have hpos := List.length_pos_iff.mpr hne
  have hlength := h.length_eq
  have hlt : min i.toNat ((sorted values).length - 1) < (sorted values).length := by
    rw [length_sorted]
    omega
  have hlt' : min i.toNat ((sorted values).length - 1) < (sorted values').length := by
    rw [length_sorted, length_sorted]
    omega
  have hsame : (sorted values').length - 1 = (sorted values).length - 1 := by
    rw [length_sorted, length_sorted, hlength]
  rw [extended, extended, hsame, List.getD_eq_getElem _ _ hlt, List.getD_eq_getElem _ _ hlt']
  exact sorted_le_sorted h hlt hlt'

/-- The two percentiles of a report. -/
theorem p50_le_p95 (values : List ℚ) :
    ∃ p50 p95, percentile values (50 / 100) = .ok p50 ∧ percentile values (95 / 100) = .ok p95 ∧
      p50 ≤ p95 := by
  by_cases hne : values = []
  · subst hne
    exact ⟨0, 0, rfl, rfl, le_rfl⟩
  · have hle : (50 / 100 : ℚ) ≤ 95 / 100 := by norm_num
    refine ⟨_, _, linearPercentile_eq hne (by norm_num) (by norm_num),
      linearPercentile_eq hne (by norm_num) (by norm_num), ?_⟩
    exact interpolate_monotone (extended_sorted_monotone hne)
      (position_mono (List.length_pos_iff.mpr hne) hle)

/-- What a percentile of a list is: between the least and the greatest value, whatever the
order, and growing with the fraction and with every value. -/
theorem percentile_behaviour {values : List ℚ} {p : ℚ} (hne : values ≠ []) (h0 : 0 ≤ p)
    (h1 : p ≤ 1) :
    benchmarkPercentile = percentile ∧
    (0 ≤ ⌊position values.length p⌋ ∧ ⌊position values.length p⌋ ≤ ⌈position values.length p⌉ ∧
      ⌈position values.length p⌉ < values.length) ∧
    (∃ p50 p95, percentile values (50 / 100) = .ok p50 ∧ percentile values (95 / 100) = .ok p95 ∧
      p50 ≤ p95) ∧
    ∃ value, percentile values p = .ok value ∧
      (∀ least ∈ values.min?, ∀ greatest ∈ values.max?, least ≤ value ∧ value ≤ greatest) ∧
      (∀ q value', p ≤ q → q ≤ 1 → percentile values q = .ok value' → value ≤ value') ∧
      (∀ values', values.Perm values' → percentile values' p = .ok value) ∧
      (∀ values' value', List.Forall₂ (· ≤ ·) values values' →
        percentile values' p = .ok value' → value ≤ value') := by
  have hmono := extended_sorted_monotone hne
  have hpos := List.length_pos_iff.mpr hne
  refine ⟨rfl, position_bounds hpos h0 h1, p50_le_p95 values, _,
    linearPercentile_eq hne h0 h1, ?_, ?_, ?_, ?_⟩
  · intro least hleast greatest hgreatest
    have hmin := (List.min?_eq_some_iff.mp hleast).2
    have hmax := (List.max?_eq_some_iff.mp hgreatest).2
    constructor
    · exact (hmin _ (extended_sorted_mem hne _)).trans (le_interpolate hmono)
    · exact (interpolate_le hmono).trans (hmax _ (extended_sorted_mem hne _))
  · intro q value' hpq hq hvalue'
    rw [percentile, linearPercentile_eq hne (h0.trans hpq) hq] at hvalue'
    cases hvalue'
    exact interpolate_monotone hmono (position_mono hpos hpq)
  · intro values' hperm
    have hne' : values' ≠ [] := fun hnil => hne (hperm.trans (hnil ▸ List.Perm.refl _)).eq_nil
    rw [percentile, linearPercentile_eq hne' h0 h1, ← sorted_eq_of_perm hperm,
      ← hperm.length_eq]
  · intro values' value' hle hvalue'
    have hlength := hle.length_eq
    have hne' : values' ≠ [] := by
      apply List.length_pos_iff.mp
      omega
    rw [percentile, linearPercentile_eq hne' h0 h1, ← hlength] at hvalue'
    cases hvalue'
    exact interpolate_le_interpolate (extended_sorted_le hne hle) _

theorem percentile_behaviour_latencies :
    percentile [3, 1, 2] (1 / 4) = .ok (3 / 2) ∧ (1 : ℚ) ≤ 3 / 2 ∧ (3 / 2 : ℚ) ≤ 3 ∧
      percentile [1, 2, 3] (1 / 4) = .ok (3 / 2) ∧ percentile [3, 1, 2] (1 / 2) = .ok 2 ∧
      (3 / 2 : ℚ) ≤ 2 ∧ percentile [5, 1, 4] (1 / 4) = .ok (5 / 2) ∧ (3 / 2 : ℚ) ≤ 5 / 2 := by
  have hne : ([3, 1, 2] : List ℚ) ≠ [] := List.cons_ne_nil 3 [1, 2]
  have hquarter : percentile [3, 1, 2] (1 / 4) = .ok (3 / 2) := by decide +kernel
  have hhalf : percentile [3, 1, 2] (1 / 2) = .ok 2 := by decide +kernel
  have hlater : percentile [5, 1, 4] (1 / 4) = .ok (5 / 2) := by decide +kernel
  obtain ⟨-, -, -, value, hvalue, hbounds, hmono, hperm, hincrease⟩ :=
    percentile_behaviour hne (show (0 : ℚ) ≤ 1 / 4 by norm_num) (by norm_num)
  have heq : value = 3 / 2 := by
    rw [hquarter] at hvalue
    exact (Except.ok.inj hvalue).symm
  subst heq
  obtain ⟨hleast, hgreatest⟩ := hbounds 1 (by decide +kernel) 3 (by decide +kernel)
  have hsame := hperm [1, 2, 3] (by decide +kernel)
  have hle := hmono (1 / 2) 2 (by norm_num) (by norm_num) hhalf
  have hgrown : List.Forall₂ (· ≤ ·) ([3, 1, 2] : List ℚ) [5, 1, 4] := by decide +kernel
  exact ⟨hquarter, hleast, hgreatest, hsame, hhalf, hle, hlater, hincrease _ _ hgrown hlater⟩

end GroundedOps.Eval
