import GroundedOps.Python.Text

/-!
# Token pricing

Prices are dollars per million tokens, taken from the configuration file; costs
are computed in exact arithmetic.
-/

namespace GroundedOps.Core

open Python

structure ModelPrice where
  input : ℚ
  output : ℚ

def models : List (Text × ModelPrice) :=
  [("claude-opus-4-8".toList, ⟨5, 25⟩),
   ("claude-opus-4-7".toList, ⟨5, 25⟩),
   ("claude-sonnet-4-6".toList, ⟨3, 15⟩),
   ("claude-haiku-4-5".toList, ⟨1, 5⟩),
   ("gpt-4o".toList, ⟨5 / 2, 10⟩),
   ("gpt-4o-mini".toList, ⟨3 / 20, 3 / 5⟩),
   ("text-embedding-3-small".toList, ⟨1 / 50, 0⟩),
   ("text-embedding-3-large".toList, ⟨13 / 100, 0⟩)]

def modelPricing (model : Text) : Option ModelPrice :=
  (models.find? fun p => p.1 == model).map Prod.snd

/-- Models without a configured price cost nothing. -/
def costUsd (model : Text) (inputTokens outputTokens : ℤ) : ℚ :=
  match modelPricing model with
  | none => 0
  | some price =>
    inputTokens / 1000000 * price.input + outputTokens / 1000000 * price.output

end GroundedOps.Core
