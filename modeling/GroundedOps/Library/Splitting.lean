import GroundedOps.Library.Scan

/-!
# Splitting a text that arrives in parts

The matches of a separator cut a text into parts, of which the last one is open: more may
follow. A separator can be looked for part by part if a match stays what it is when the text
goes on, and if nothing matches inside a match that is not complete.
-/

namespace GroundedOps.Scan

variable {α β : Type*}

/-- Puts a symbol in front of the first part. -/
def consPart (c : α) : List (List α) × List α → List (List α) × List α
  | ([], last) => ([], c :: last)
  | (part :: parts, last) => ((c :: part) :: parts, last)

def partsOf : List (α ⊕ β) → List (List α) × List α
  | [] => ([], [])
  | .inl c :: segs => consPart c (partsOf segs)
  | .inr _ :: segs => ([] :: (partsOf segs).1, (partsOf segs).2)

/-- The parts in front of the matches, and what is behind the last one. -/
def splitParts (m : Matcher α β) (s : List α) : List (List α) × List α := partsOf (scan m s)

/-- All parts. -/
def splitBy (m : Matcher α β) (s : List α) : List (List α) :=
  (splitParts m s).1 ++ [(splitParts m s).2]

variable {m : Matcher α β}

@[simp] theorem splitParts_nil : splitParts m [] = ([], []) := rfl

theorem Quiet.append {u v w : List α} (hu : Quiet m u (v ++ w)) (hv : Quiet m v w) :
    Quiet m (u ++ v) w := by
  intro pre c post h
  rcases List.append_eq_append_iff.mp h with ⟨inner, rfl, hinner⟩ | ⟨inner, rfl, hinner⟩
  · exact hv inner c post hinner
  · cases inner with
    | nil => exact hv [] c post hinner.symm
    | cons d inner =>
      obtain ⟨rfl, rfl⟩ := List.cons.inj hinner
      have hrun := hu pre c inner rfl
      rw [← List.append_assoc] at hrun
      exact hrun

end GroundedOps.Scan
