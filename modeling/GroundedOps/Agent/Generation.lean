import GroundedOps.Agent.CitationRegistry

/-!
# Sources of an answer
-/

namespace GroundedOps.Agent

open Python

/-- One registry entry surfaced in the response. -/
structure Source where
  index : ℕ
  chunkId : Text
  docId : Text
  sourceType : Text
  title : Text
  snippet : Text
  charStart : ℤ
  charEnd : ℤ
  deriving DecidableEq, Repr

def Source.ofEntry (e : CitationEntry) : Source :=
  { index := e.index, chunkId := e.chunkId, docId := e.docId, sourceType := e.sourceType,
    title := e.title, snippet := e.snippet, charStart := e.charStart, charEnd := e.charEnd }

/-- The entries actually cited. -/
def sourcesFor (registry : CitationRegistry) (used : List ℕ) : List Source :=
  (registry.entries.filter fun e => used.contains e.index).map Source.ofEntry

end GroundedOps.Agent
