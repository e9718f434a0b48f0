import GroundedOps.Llm.Types

/-!
# Guardrails of the agent loop

The stateful pieces the loop consults: the calls already made in this request,
and the tokens already consumed.
-/

namespace GroundedOps.Agent

open Python Llm

variable {F : Type} (py : Interpreter F)

/-- Key of a tool call: its name and its arguments with sorted members. -/
def cycleKey (name : Text) (arguments : Json F) : Text :=
  name ++ "::".toList ++ arguments.dumps py true

/-- Calls with the same name and the same arguments as JSON documents. -/
def SameCall (a b : Text × Json F) : Prop := a.1 = b.1 ∧ a.2.canon = b.2.canon

theorem cycleKey_eq_of_sameCall {a b : Text × Json F} (h : SameCall a b) :
    cycleKey py a.1 a.2 = cycleKey py b.1 b.2 := by
  rw [cycleKey, cycleKey, h.1, Json.dumps_eq_of_canon_eq py h.2]

/-- Blocks a call that repeats one already made this request; `K` is the type of keys. -/
structure CycleDetector (K : Type := Text) where
  seen : List K := []

namespace CycleDetector

/-- Whether the key was seen; it is from now on. -/
def see {K : Type} [DecidableEq K] (c : CycleDetector K) (key : K) : Bool × CycleDetector K :=
  if key ∈ c.seen then (true, c) else (false, ⟨key :: c.seen⟩)

def isRepeat (c : CycleDetector) (name : Text) (arguments : Json F) : Bool × CycleDetector :=
  c.see (cycleKey py name arguments)

end CycleDetector

structure TokenBudget where
  limit : ℤ
  reserveOutput : ℤ
  consumed : ℤ := 0

namespace TokenBudget

/-- Whether the estimated input and the reserved output of the next step fit. -/
def canAfford (b : TokenBudget) (projectedInputTokens : ℤ) : Bool :=
  b.consumed + projectedInputTokens + b.reserveOutput ≤ b.limit

def reconcile (b : TokenBudget) (usage : LLMUsage) : TokenBudget :=
  { b with consumed := b.consumed + (usage.inputTokens + usage.outputTokens) }

@[simp] theorem reconcile_limit (b : TokenBudget) (u : LLMUsage) :
    (b.reconcile u).limit = b.limit := rfl

@[simp] theorem reconcile_reserveOutput (b : TokenBudget) (u : LLMUsage) :
    (b.reconcile u).reserveOutput = b.reserveOutput := rfl

@[simp] theorem reconcile_consumed (b : TokenBudget) (u : LLMUsage) :
    (b.reconcile u).consumed = b.consumed + u.total := rfl

/-- A step whose projection was affordable and held stays within the limit. -/
theorem reconcile_le {b : TokenBudget} {projected : ℤ} {u : LLMUsage}
    (h : b.canAfford projected = true) (hin : u.inputTokens ≤ projected)
    (hout : u.outputTokens ≤ b.reserveOutput) : (b.reconcile u).consumed ≤ b.limit := by
  simp only [canAfford, decide_eq_true_eq] at h
  rw [reconcile_consumed, LLMUsage.total]
  omega

end TokenBudget

end GroundedOps.Agent
