import GroundedOps.Agent.Orchestrator

/-!
# The client of the analytics server

The session is not part of the program: it answers a call with a result, it does
not answer in time, or it raises. Results are reduced to one internal shape, and
a call that timed out surfaces as a tool error.
-/

namespace GroundedOps.McpClient

open Python Agent

variable {F : Type}

/-- A block of a result; only text blocks have a text. -/
structure ContentBlock where
  text : Option Text

/-- A result of the server; without structured content that part is null. -/
structure CallToolResult (F : Type) where
  content : List ContentBlock
  structuredContent : Json F
  isError : Bool

structure NormalizedToolResult (F : Type) where
  text : Text
  structured : Json F
  isError : Bool

def normalizeCallResult (result : CallToolResult F) : NormalizedToolResult F :=
  { text := join ['\n'] (result.content.filterMap ContentBlock.text)
    structured := result.structuredContent
    isError := result.isError }

inductive SessionAnswer (F : Type)
  | returned (result : CallToolResult F)
  | timedOut
  | raised (e : Exn)

def timeoutMessage (name : Text) (timeout : ℕ) : Text :=
  "tool '".toList ++ name ++ "' timed out after ".toList ++ str timeout ++ ".0s".toList

/-- `MCPClient.call_tool`, for what the session answers. -/
def callTool (answer : SessionAnswer F) (name : Text) (timeout : ℕ) :
    Except Exn (NormalizedToolResult F) :=
  match answer with
  | .returned result => .ok (normalizeCallResult result)
  | .timedOut => .error (.toolError (timeoutMessage name timeout))
  | .raised e => .error e

/-- `MCPToolExecutor.call` -/
def executorCall (answer : SessionAnswer F) (name : Text) (timeout : ℕ) :
    Except Exn (ToolOutcome F) :=
  match callTool answer name timeout with
  | .ok result => .ok ⟨result.text, result.structured, result.isError⟩
  | .error e => .error e

/-- The session answers as a function of everything that has happened so far. -/
abbrev Session (F : Type) := List (Action F) → Text → Json F → ℕ → SessionAnswer F

/-- Collaborators whose tools are called through the client. -/
def overSession (svc : Services F) (session : Session F) : Services F :=
  { svc with call := fun log name arguments timeout =>
      executorCall (session log name arguments timeout) name timeout }

end GroundedOps.McpClient
