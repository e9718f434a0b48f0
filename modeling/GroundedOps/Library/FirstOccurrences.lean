import Mathlib.Data.List.Nodup
import Mathlib.Tactic

/-!
# First occurrences

Of the elements of a list that share a key, the first one. What is appended later changes
nothing about the elements that are there.
-/

namespace GroundedOps

variable {α κ : Type*} [DecidableEq κ]

/-- The elements whose key no earlier element has. -/
def firstsBy (key : α → κ) : List α → List α
  | [] => []
  | a :: l => a :: (firstsBy key l).filter fun b => key b ≠ key a

variable {key : α → κ}

theorem mem_map_firstsBy {l : List α} {k : κ} : k ∈ (firstsBy key l).map key ↔ k ∈ l.map key := by
  induction l with
  | nil => rfl
  | cons a l ih =>
    rw [List.map_cons, List.mem_cons, ← ih, firstsBy, List.map_cons, List.mem_cons]
    by_cases hk : k = key a
    · simp [hk]
    · simp only [hk, false_or, List.mem_map, List.mem_filter, decide_eq_true_eq]
      constructor
      · intro ⟨b, hb, hkey⟩
        exact ⟨b, hb.1, hkey⟩
      · intro ⟨b, hb, hkey⟩
        exact ⟨b, ⟨hb, hkey ▸ hk⟩, hkey⟩

theorem nodup_map_firstsBy (l : List α) : ((firstsBy key l).map key).Nodup := by
  induction l with
  | nil => exact List.nodup_nil
  | cons a l ih =>
    rw [firstsBy, List.map_cons, List.nodup_cons]
    constructor
    · simp
    · exact ih.sublist (List.filter_sublist.map key)

theorem firstsBy_concat (l : List α) (a : α) :
    firstsBy key (l ++ [a]) =
      if key a ∈ l.map key then firstsBy key l else firstsBy key l ++ [a] := by
  induction l with
  | nil => rfl
  | cons b l ih =>
    rw [List.cons_append, firstsBy, ih, firstsBy, List.map_cons]
    by_cases hl : key a ∈ l.map key
    · rw [if_pos hl, if_pos (List.mem_cons_of_mem _ hl)]
    · by_cases hb : key a = key b
      · rw [if_neg hl, if_pos (hb ▸ List.mem_cons_self), List.filter_append]
        simp [hb]
      · have hcons : key a ∉ key b :: l.map key := by
          intro h
          exact (List.mem_cons.mp h).elim hb hl
        rw [if_neg hl, if_neg hcons, List.filter_append]
        simp [hb]

theorem firstsBy_isPrefix (l l' : List α) : firstsBy key l <+: firstsBy key (l ++ l') := by
  induction l' using List.reverseRecOn with
  | nil => rw [List.append_nil]
  | append_singleton l' a ih =>
    rw [← List.append_assoc, firstsBy_concat]
    split_ifs
    · exact ih
    · exact ih.trans (List.prefix_append _ [a])

end GroundedOps
