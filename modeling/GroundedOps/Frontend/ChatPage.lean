import GroundedOps.Api.ChatEndpoint
import GroundedOps.Frontend.EventStream

/-!
# What a chat shows

The page reads as much of the response as arrives. It shows a prefix of the validated answer,
the whole result once the closing event has been read, and nothing if the run fails.
-/

namespace GroundedOps.Frontend

open Python Scan Agent Orchestrator Api EventStream Retrieval

variable {F : Type}

/-! ### The page of a result -/

def resultPage (stringify : Json F → Text) (result : AgentResult F) : Page where
  answer := result.answer
  answerHtml := renderCitations result.answer
  sourcesHtml := (renderSources result.sources).getD []
  traceHtml := (renderTrace stringify result.trace).getD []

section Shown

variable {stringify : Json F → Text}

end Shown

/-! ### Reading a part of the response -/

section Reading

variable {py : Interpreter F} {float : ℚ → F} {b : Browser F}

end Reading

/-! ### Whole requests -/

section Requests

variable {strExn : Exn → Text} {client : Client F} {settings : Settings} {question : Text}
  {topK : Option ℤ} {filters : Option SearchFilters}

/-- What the page shows once it has handled these events of a request. -/
structure Shows (strExn : Exn → Text) (client : Client F) (settings : Settings) (question : Text)
    (topK : Option ℤ) (filters : Option SearchFilters) (stringify : Json F → Text)
    (events : List (StreamEvent F)) : Prop where
  failed : ∀ e, chatResult client settings question topK filters = .error e →
    shown (pageRenderers stringify) (agentEvents events) = {}
  answering : ∀ result, chatResult client settings question topK filters = .ok result →
    (shown (pageRenderers stringify) (agentEvents events)).answer <+: result.answer
  done : ∀ data, .agent (.done data) ∈ events → ∃ result,
    chatResult client settings question topK filters = .ok result ∧
      shown (pageRenderers stringify) (agentEvents events) = resultPage stringify result
  error : ∀ detail, .error detail ∈ events → ∃ e,
    ended client settings question topK filters = .error e ∧ detail = strExn e ∧
      events = eventStream strExn client settings question topK filters

end Requests

/-! ### A request that arrives byte by byte -/

section Scripted

end Scripted

end GroundedOps.Frontend
