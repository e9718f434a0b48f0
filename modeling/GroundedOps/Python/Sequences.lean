import Mathlib.Tactic

/-!
# Slices and positions

A bound or a position below zero counts from the end.
-/

namespace GroundedOps.Python

/-- `xs[:stop]` -/
def sliceTo {α : Type} (xs : List α) (stop : ℤ) : List α :=
  if 0 ≤ stop then xs.take stop.toNat else xs.take (xs.length - stop.natAbs)

theorem sliceTo_natCast {α : Type} (xs : List α) (n : ℕ) : sliceTo xs n = xs.take n :=
  if_pos (Int.natCast_nonneg n)

theorem length_sliceTo {α : Type} (xs : List α) (stop : ℤ) : (sliceTo xs stop).length =
    if 0 ≤ stop then min stop.toNat xs.length else xs.length - stop.natAbs := by
  unfold sliceTo
  split_ifs
  · exact List.length_take
  · rw [List.length_take]
    omega

theorem map_sliceTo {α β : Type} (f : α → β) (xs : List α) (stop : ℤ) :
    (sliceTo xs stop).map f = sliceTo (xs.map f) stop := by
  unfold sliceTo
  split_ifs
  · exact List.map_take
  · rw [List.map_take, List.length_map]

theorem sliceTo_sublist {α : Type} (xs : List α) (stop : ℤ) : (sliceTo xs stop).Sublist xs := by
  unfold sliceTo
  split_ifs <;> exact List.take_sublist _ _

theorem sliceTo_subset {α : Type} (xs : List α) (stop : ℤ) : sliceTo xs stop ⊆ xs :=
  (sliceTo_sublist xs stop).subset

/-- `xs[i]`, where it exists. -/
def getItem? {α : Type} (xs : List α) (i : ℤ) : Option α :=
  if 0 ≤ i then xs[i.toNat]?
  else if i.natAbs ≤ xs.length then xs[xs.length - i.natAbs]? else none

/-- `int(x)`, towards zero. -/
def toInt (x : ℚ) : ℤ := if 0 ≤ x then ⌊x⌋ else ⌈x⌉

end GroundedOps.Python
