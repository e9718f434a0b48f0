import GroundedOps.Agent.Orchestrator
import GroundedOps.Library.Utf8
import GroundedOps.Python.JsonText

/-!
# The stream of a chat

Every event of a run is sent with its type and its data, which `json.dumps` writes on one
line. A failure is sent as an event of its own. Dataclasses become objects with their fields.
-/

namespace GroundedOps.Api

open Python Llm Agent

variable {F : Type}

section Data

variable (float : ℚ → F)

def usageData (usage : LLMUsage) : Json F :=
  .obj [("input_tokens".toList, .int usage.inputTokens),
    ("output_tokens".toList, .int usage.outputTokens)]

def sourceData (s : Source) : Json F :=
  .obj [("index".toList, .int s.index), ("chunk_id".toList, .str s.chunkId),
    ("doc_id".toList, .str s.docId), ("source_type".toList, .str s.sourceType),
    ("title".toList, .str s.title), ("snippet".toList, .str s.snippet),
    ("char_start".toList, .int s.charStart), ("char_end".toList, .int s.charEnd)]

def stepData (t : TraceStep F) : Json F :=
  .obj [("step".toList, .int t.step), ("tool".toList, .str t.tool),
    ("arguments".toList, t.arguments), ("latency_ms".toList, .float (float t.latencyMs)),
    ("result_summary".toList, .str t.resultSummary), ("is_error".toList, .bool t.isError)]

def stopReasonText : StopReason → Text
  | .answered => "answered".toList
  | .stepCap => "step_cap".toList
  | .tokenBudget => "token_budget".toList

/-- One event of the response. -/
inductive StreamEvent (F : Type)
  | agent (event : AgentEvent F)
  | error (detail : Text)

namespace StreamEvent

def type : StreamEvent F → Text
  | agent .seeding => "status".toList
  | agent (.planning _) => "status".toList
  | agent (.toolCall ..) => "tool_call".toList
  | agent (.toolResult ..) => "tool_result".toList
  | agent (.token _) => "token".toList
  | agent (.sources _) => "sources".toList
  | agent (.trace _) => "trace".toList
  | agent (.done _) => "done".toList
  | error _ => "error".toList

def data : StreamEvent F → List (Text × Json F)
  | agent .seeding => [("phase".toList, .str "seed_retrieval".toList)]
  | agent (.planning step) =>
    [("phase".toList, .str "planning".toList), ("step".toList, .int step)]
  | agent (.toolCall tool arguments) =>
    [("tool".toList, .str tool), ("arguments".toList, arguments)]
  | agent (.toolResult tool summary isError latencyMs) =>
    [("tool".toList, .str tool), ("summary".toList, .str summary),
      ("is_error".toList, .bool isError)] ++
      latencyMs.toList.map fun x => ("latency_ms".toList, .float (float x))
  | agent (.token text) => [("text".toList, .str text)]
  | agent (.sources sources) => [("sources".toList, .arr (sources.map sourceData))]
  | agent (.trace trace) => [("trace".toList, .arr (trace.map (stepData float)))]
  | agent (.done d) =>
    [("used_indices".toList, .arr (d.usedIndices.map fun i => .int i)),
      ("usage".toList, usageData d.usage), ("cost_usd".toList, .float (float d.costUsd)),
      ("model".toList, .str d.model), ("steps".toList, .int d.steps),
      ("stop_reason".toList, .str (stopReasonText d.stopReason))]
  | error detail => [("error".toList, .str "agent_error".toList), ("detail".toList, .str detail)]

/-- The text of a token, and nothing otherwise. -/
def tokenText : StreamEvent F → Text
  | agent (.token text) => text
  | _ => []

end StreamEvent

end Data

/-! ### The text of the stream -/

section Sent

variable (py : Interpreter F) (float : ℚ → F)

def eventLine (event : StreamEvent F) : Text := "event: ".toList ++ event.type

def dataLine (event : StreamEvent F) : Text :=
  "data: ".toList ++ Json.dumps py false (.obj (event.data float))

def lineEnd : Text := ['\r', '\n']

/-- The two lines of an event, without the blank line behind them. -/
def block (event : StreamEvent F) : Text := eventLine event ++ lineEnd ++ dataLine py float event

end Sent

/-! ### The characters of the stream -/

section Characters

variable {py : Interpreter F} {float : ℚ → F}

def eventTypes : List Text :=
  ["status".toList, "tool_call".toList, "tool_result".toList, "token".toList, "sources".toList,
    "trace".toList, "done".toList, "error".toList]

end Characters

end GroundedOps.Api
