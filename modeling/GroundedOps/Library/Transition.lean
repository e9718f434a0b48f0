import Mathlib.Tactic

/-!
# Runs of a labelled transition system

A run keeps its steps with the states before and after. The rules carry an invariant
along a run whose steps meet a condition, and read it at every step.
-/

namespace GroundedOps.Transition

structure Step (σ ℓ : Type*) where
  before : σ
  label : ℓ
  after : σ

variable {σ ℓ : Type*} {step : σ → ℓ → σ → Prop} {s t : σ} {steps : List (Step σ ℓ)}

inductive Run (step : σ → ℓ → σ → Prop) (s : σ) : List (Step σ ℓ) → σ → Prop
  | nil : Run step s [] s
  | snoc {steps t l u} : Run step s steps t → step t l u → Run step s (steps ++ [⟨t, l, u⟩]) u

/-- Every step of a run is a step of the system. -/
theorem Run.step_of_mem (h : Run step s steps t) {x : Step σ ℓ} (hx : x ∈ steps) :
    step x.before x.label x.after := by
  induction h with
  | nil => cases hx
  | snoc hrun hstep ih =>
    rcases List.mem_append.mp hx with hx | hx
    · exact ih hx
    · obtain rfl := List.mem_singleton.mp hx
      exact hstep

/-- The last step of a run. -/
theorem Run.last {x : Step σ ℓ} (h : Run step s (steps ++ [x]) t) :
    ∃ u l, x = ⟨u, l, t⟩ ∧ Run step s steps u ∧ step u l t := by
  generalize hall : steps ++ [x] = all at h
  cases h with
  | nil => simp at hall
  | snoc hrun hstep =>
    obtain ⟨rfl, rfl⟩ := List.append_singleton_inj.mp hall
    exact ⟨_, _, rfl, hrun, hstep⟩

theorem Run.append {rest : List (Step σ ℓ)} {u : σ} (h : Run step s steps t)
    (h' : Run step t rest u) : Run step s (steps ++ rest) u := by
  induction h' with
  | nil => simpa using h
  | snoc _ hstep ih =>
    rw [← List.append_assoc]
    exact ih.snoc hstep

/-- A run splits where its steps do. -/
theorem Run.split {rest : List (Step σ ℓ)} (h : Run step s (steps ++ rest) t) :
    ∃ u, Run step s steps u ∧ Run step u rest t := by
  induction rest using List.reverseRecOn generalizing t with
  | nil => exact ⟨t, by simpa using h, .nil⟩
  | append_singleton rest x ih =>
    rw [← List.append_assoc] at h
    obtain ⟨v, l, rfl, hrun, hstep⟩ := h.last
    obtain ⟨u, hfirst, hrest⟩ := ih hrun
    exact ⟨u, hfirst, hrest.snoc hstep⟩

section Invariant

variable {I : σ → Prop} {P : Step σ ℓ → Prop}
  (hI : ∀ t l u, I t → step t l u → P ⟨t, l, u⟩ → I u)
include hI

/-- An invariant kept by the steps that meet the condition holds at the end of a run of
such steps. -/
theorem Run.invariant_of (h : Run step s steps t) (hP : ∀ x ∈ steps, P x) (hs : I s) : I t := by
  induction h with
  | nil => exact hs
  | snoc hrun hstep ih =>
    exact hI _ _ _ (ih fun x hx => hP x (by simp [hx])) hstep (hP _ (by simp))

/-- Such an invariant holds before every step of the run. -/
theorem Run.before_of (h : Run step s steps t) (hP : ∀ x ∈ steps, P x) (hs : I s)
    {x : Step σ ℓ} (hx : x ∈ steps) : I x.before := by
  induction h with
  | nil => cases hx
  | snoc hrun hstep ih =>
    have hP' := fun y hy => hP y (List.mem_append_left _ hy)
    rcases List.mem_append.mp hx with hx | hx
    · exact ih hP' hx
    · obtain rfl := List.mem_singleton.mp hx
      exact Run.invariant_of hI hrun hP' hs

end Invariant

section Unconditional

variable {I : σ → Prop} (hI : ∀ t l u, I t → step t l u → I u)
include hI

theorem Run.before (h : Run step s steps t) (hs : I s) {x : Step σ ℓ} (hx : x ∈ steps) :
    I x.before :=
  Run.before_of (P := fun _ => True) (fun t l u ht hstep _ => hI t l u ht hstep) h
    (fun _ _ => trivial) hs hx

end Unconditional

end GroundedOps.Transition
