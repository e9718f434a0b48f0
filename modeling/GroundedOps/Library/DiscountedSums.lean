import Mathlib.Algebra.BigOperators.Group.List.Basic
import Mathlib.Algebra.Order.Group.Defs
import Mathlib.Data.List.Nodup
import Mathlib.Data.List.Range
import Mathlib.Tactic

/-!
# Sums over positions

Every position of a list has a weight, and the hits of the list are added up. Weights that
fall with the position make an initial segment the best place for the hits, and no other
place is as good.
-/

namespace GroundedOps.Discount

variable {α K : Type*}

/-! ### Increasing positions -/

section Positions

variable [AddCommMonoid K] [LinearOrder K] [IsOrderedCancelAddMonoid K] {w : ℕ → K}

theorem sum_le_sum_range' (hw : Antitone w) {positions : List ℕ} {c : ℕ}
    (hpositions : positions.Pairwise (· < ·)) (hc : ∀ p ∈ positions, c ≤ p) :
    (positions.map w).sum ≤ ((List.range' c positions.length).map w).sum := by
  induction positions generalizing c with
  | nil => exact le_rfl
  | cons p positions ih =>
    obtain ⟨hhead, htail⟩ := List.pairwise_cons.mp hpositions
    have hcp : c ≤ p := hc p List.mem_cons_self
    rw [List.map_cons, List.sum_cons, List.length_cons, List.range'_succ, List.map_cons,
      List.sum_cons]
    apply add_le_add (hw hcp)
    apply ih htail
    intro q hq
    have hpq := hhead q hq
    omega

theorem sum_eq_sum_range'_iff (hw : StrictAnti w) {positions : List ℕ} {c : ℕ}
    (hpositions : positions.Pairwise (· < ·)) (hc : ∀ p ∈ positions, c ≤ p) :
    (positions.map w).sum = ((List.range' c positions.length).map w).sum ↔
      positions = List.range' c positions.length := by
  induction positions generalizing c with
  | nil => simp
  | cons p positions ih =>
    obtain ⟨hhead, htail⟩ := List.pairwise_cons.mp hpositions
    have hcp : c ≤ p := hc p List.mem_cons_self
    have hnext : ∀ q ∈ positions, c + 1 ≤ q := by
      intro q hq
      have hpq := hhead q hq
      omega
    rw [List.map_cons, List.sum_cons, List.length_cons, List.range'_succ, List.map_cons,
      List.sum_cons]
    constructor
    · intro h
      have hrest := sum_le_sum_range' hw.antitone htail hnext
      have hp : p = c := by
        by_contra hne
        have hlt : w p < w c := hw (by omega)
        exact (add_lt_add_of_lt_of_le hlt hrest).ne h
      subst hp
      rw [(ih htail hnext).mp (add_left_cancel h)]
      simp
    · intro h
      obtain ⟨hp, hrest⟩ := List.cons.inj h
      rw [hp, (ih htail hnext).mpr hrest]

theorem sum_range_lt (hpos : ∀ i, 0 < w i) {m n : ℕ} (h : m < n) :
    ((List.range m).map w).sum < ((List.range n).map w).sum := by
  induction n with
  | zero => omega
  | succ n ih =>
    rw [List.range_succ, List.map_append, List.sum_append, List.map_singleton,
      List.sum_singleton]
    rcases Nat.lt_succ_iff_lt_or_eq.mp h with h | rfl
    · exact lt_add_of_lt_of_pos (ih h) (hpos n)
    · exact lt_add_of_pos_right _ (hpos m)

theorem sum_range_mono (hpos : ∀ i, 0 < w i) {m n : ℕ} (h : m ≤ n) :
    ((List.range m).map w).sum ≤ ((List.range n).map w).sum := by
  rcases h.eq_or_lt with rfl | h
  · exact le_rfl
  · exact (sum_range_lt hpos h).le

end Positions

/-! ### Hits of a list -/

section Hits

variable (hit : α → Prop) [DecidablePred hit]

/-- The positions of the hits, counted from `start`. -/
def hits (start : ℕ) (l : List α) : List ℕ :=
  ((l.zipIdx start).filter fun p => hit p.1).map Prod.snd

theorem hits_nil (start : ℕ) : hits hit start ([] : List α) = [] := rfl

theorem hits_cons (start : ℕ) (a : α) (l : List α) :
    hits hit start (a :: l) =
      if hit a then start :: hits hit (start + 1) l else hits hit (start + 1) l := by
  by_cases ha : hit a
  · rw [if_pos ha, hits, List.zipIdx_cons, List.filter_cons_of_pos (by simpa using ha)]
    rfl
  · rw [if_neg ha, hits, List.zipIdx_cons, List.filter_cons_of_neg (by simpa using ha)]
    rfl

theorem hits_append (start : ℕ) (l l' : List α) :
    hits hit start (l ++ l') = hits hit start l ++ hits hit (start + l.length) l' := by
  rw [hits, List.zipIdx_append, List.filter_append, List.map_append]
  rfl

theorem length_hits (start : ℕ) (l : List α) : (hits hit start l).length = l.countP hit := by
  induction l generalizing start with
  | nil => rfl
  | cons a l ih =>
    rw [hits_cons]
    by_cases ha : hit a
    · rw [if_pos ha, List.length_cons, ih, List.countP_cons_of_pos (by simpa using ha)]
    · rw [if_neg ha, ih, List.countP_cons_of_neg (by simpa using ha)]

theorem mem_hits {start : ℕ} {l : List α} {i : ℕ} :
    i ∈ hits hit start l ↔ ∃ a, start ≤ i ∧ l[i - start]? = some a ∧ hit a := by
  simp only [hits, List.mem_map, List.mem_filter, decide_eq_true_eq, Prod.exists,
    List.mem_zipIdx_iff_le_and_getElem?_sub]
  constructor
  · rintro ⟨a, j, ⟨⟨hle, ha⟩, hhit⟩, rfl⟩
    exact ⟨a, hle, ha, hhit⟩
  · intro ⟨a, hle, ha, hhit⟩
    exact ⟨a, i, ⟨⟨hle, ha⟩, hhit⟩, rfl⟩

theorem hits_sorted (start : ℕ) (l : List α) : (hits hit start l).Pairwise (· < ·) := by
  have hsub : (hits hit start l).Sublist (List.range' start l.length) := by
    rw [← List.zipIdx_map_snd start l]
    exact List.filter_sublist.map Prod.snd
  exact List.Pairwise.sublist hsub (List.pairwise_lt_range' ..)

/-- All of the first `n` positions are hits exactly when the hits begin with them. -/
theorem hits_eq_range_iff {l : List α} {n : ℕ} (h : (hits hit 0 l).length ≤ n) :
    hits hit 0 l = List.range n ↔ ∀ i < n, ∃ a, l[i]? = some a ∧ hit a := by
  constructor
  · intro heq i hi
    have hmem : i ∈ hits hit 0 l := by
      rw [heq]
      exact List.mem_range.mpr hi
    obtain ⟨a, -, ha, hhit⟩ := (mem_hits hit).mp hmem
    exact ⟨a, ha, hhit⟩
  · intro hall
    have hsubset : List.range n ⊆ hits hit 0 l := by
      intro i hi
      obtain ⟨a, ha, hhit⟩ := hall i (List.mem_range.mp hi)
      exact (mem_hits hit).mpr ⟨a, Nat.zero_le i, ha, hhit⟩
    have hperm : (List.range n).Perm (hits hit 0 l) := by
      apply (List.subperm_of_subset List.nodup_range hsubset).perm_of_length_le
      rwa [List.length_range]
    apply hperm.symm.eq_of_pairwise _ (hits_sorted hit 0 l) List.pairwise_lt_range
    intro i j _ _ hij hji
    omega

section Exchange

variable [AddCommMonoid K] [LinearOrder K] [IsOrderedCancelAddMonoid K] {w : ℕ → K}

/-- A hit that moves up past its neighbour, in a list that is cut off anywhere. -/
theorem sum_hits_exchange (hw : Antitone w) (hnonneg : ∀ i, 0 ≤ w i) (front back : List α)
    {miss found : α} (hmiss : ¬hit miss) (hfound : hit found) (k : ℕ) :
    ((hits hit 0 ((front ++ miss :: found :: back).take k)).map w).sum ≤
      ((hits hit 0 ((front ++ found :: miss :: back).take k)).map w).sum := by
  rw [List.take_append, List.take_append, hits_append, hits_append, List.map_append,
    List.map_append, List.sum_append, List.sum_append]
  apply add_le_add_right
  obtain h | h | ⟨n, h⟩ : k - front.length = 0 ∨ k - front.length = 1 ∨
      ∃ n, k - front.length = n + 2 := by
    rcases Nat.lt_or_ge (k - front.length) 2 with h | h
    · omega
    · exact Or.inr (Or.inr ⟨k - front.length - 2, by omega⟩)
  · rw [h, List.take_zero, List.take_zero]
  · -- the cut falls between the two
    rw [h]
    simp only [List.take_succ_cons, List.take_zero, hits_cons, hits_nil, if_neg hmiss,
      if_pos hfound, List.map_nil, List.sum_nil, List.map_cons, List.sum_cons, add_zero]
    exact hnonneg _
  · rw [h]
    simp only [List.take_succ_cons, hits_cons, if_neg hmiss, if_pos hfound, List.map_cons,
      List.sum_cons]
    apply add_le_add_left
    exact hw (Nat.le_succ _)

end Exchange

end Hits

end GroundedOps.Discount
