import GroundedOps.Python.Json

/-!
# Provider-agnostic conversation types

One shape for messages, tool calls and usage; every provider translates it into
its own wire format.
-/

namespace GroundedOps.Llm

open Python

variable {F : Type}

inductive Role
  | user
  | assistant
  | tool
  deriving DecidableEq, Repr

/-- A model request to call a tool. -/
structure ToolCall (F : Type) where
  id : Text
  name : Text
  arguments : Json F

structure ToolSpec (F : Type) where
  name : Text
  description : Text
  inputSchema : Json F

/-- One normalized conversation turn. -/
structure LLMMessage (F : Type) where
  role : Role
  content : Option Text := none
  toolCalls : List (ToolCall F) := []
  toolCallId : Option Text := none
  isError : Bool := false

namespace LLMMessage

def user (text : Text) : LLMMessage F := { role := .user, content := some text }

def toolResult (toolCallId content : Text) (isError : Bool) : LLMMessage F :=
  { role := .tool, content := some content, toolCallId := some toolCallId, isError }

end LLMMessage

/-- Token usage reported by a provider. -/
@[ext]
structure LLMUsage where
  inputTokens : ℤ := 0
  outputTokens : ℤ := 0
  deriving DecidableEq, Repr

namespace LLMUsage

instance : Add LLMUsage :=
  ⟨fun u v => ⟨u.inputTokens + v.inputTokens, u.outputTokens + v.outputTokens⟩⟩

instance : Zero LLMUsage := ⟨{}⟩

@[simp] theorem add_inputTokens (u v : LLMUsage) :
    (u + v).inputTokens = u.inputTokens + v.inputTokens := rfl

@[simp] theorem add_outputTokens (u v : LLMUsage) :
    (u + v).outputTokens = u.outputTokens + v.outputTokens := rfl

@[simp] theorem zero_inputTokens : (0 : LLMUsage).inputTokens = 0 := rfl

@[simp] theorem zero_outputTokens : (0 : LLMUsage).outputTokens = 0 := rfl

instance : AddCommMonoid LLMUsage where
  add_assoc u v w := by ext <;> simp [add_assoc]
  zero_add u := by ext <;> simp
  add_zero u := by ext <;> simp
  add_comm u v := by ext <;> simp [add_comm]
  nsmul := nsmulRec

def total (u : LLMUsage) : ℤ := u.inputTokens + u.outputTokens

@[simp] theorem total_zero : total 0 = 0 := rfl

@[simp] theorem total_add (u v : LLMUsage) : (u + v).total = u.total + v.total := by
  simp only [total, add_inputTokens, add_outputTokens]
  ring

end LLMUsage

/-- A normalized model response. -/
structure LLMResponse (F : Type) where
  text : Text
  toolCalls : List (ToolCall F) := []
  usage : LLMUsage := {}
  stopReason : Text := "end_turn".toList
  model : Text := []

end GroundedOps.Llm
