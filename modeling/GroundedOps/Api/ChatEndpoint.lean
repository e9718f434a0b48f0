import GroundedOps.Agent.EventProtocol
import GroundedOps.Api.Chat

/-!
# The chat endpoint

A run is streamed inside its connection to the analytics server; whatever ends it badly is
sent as a last event. A run that fails has delivered nothing.
-/

namespace GroundedOps.Api

open Python Agent Orchestrator Retrieval

variable {F : Type}

/-- The context of a request: entering the connection, building the orchestrator in it, and
leaving it. -/
structure Client (F : Type) where
  enter : Except Exn Unit
  services : Except Exn (Services F)
  leave : Except Exn Unit

section Chat

variable (strExn : Exn → Text) (client : Client F) (settings : Settings) (question : Text)
  (topK : Option ℤ) (filters : Option SearchFilters)

/-- The body of the connection, with the events it yields. -/
def served : Except Exn Unit × List (AgentEvent F) :=
  match client.services with
  | .error e => (.error e, [])
  | .ok svc => ((run svc settings question topK filters).1,
      eventsOf (run svc settings question topK filters).2.log)

/-- How the connection ends; an exception from leaving it replaces the one of its body. -/
def ended : Except Exn Unit := do
  client.enter
  client.leave
  (served client settings question topK filters).1

def errorEvents (outcome : Except Exn Unit) : List (StreamEvent F) :=
  match outcome with
  | .ok _ => []
  | .error e => [.error (strExn e)]

/-- The events before the one that reports how the connection ended. -/
def yielded : List (AgentEvent F) :=
  match client.enter with
  | .error _ => []
  | .ok _ => (served client settings question topK filters).2

/-- `event_stream` -/
def eventStream : List (StreamEvent F) :=
  (yielded client settings question topK filters).map .agent ++
    errorEvents strExn (ended client settings question topK filters)

/-- The result of the run behind the stream. -/
def chatResult : Except Exn (AgentResult F) := do
  client.enter
  let svc ← client.services
  runResult svc settings question topK filters

end Chat

/-! ### What is yielded -/

section Yielded

variable {client : Client F} {settings : Settings} {question : Text} {topK : Option ℤ}
  {filters : Option SearchFilters}

end Yielded

end GroundedOps.Api
