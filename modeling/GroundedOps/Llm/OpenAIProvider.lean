import GroundedOps.Library.Program
import GroundedOps.Llm.Types

/-!
# The OpenAI provider

Every message becomes one message; the arguments of a call travel as JSON text. Tokens are
counted locally, text by text, with the encoding of the model.
-/

namespace GroundedOps.Llm.OpenAI

open Python

variable {F : Type}

structure WireCall where
  id : Text
  name : Text
  arguments : Text
  deriving DecidableEq, Repr

inductive WireMessage
  | system (content : Text)
  | user (content : Text)
  | tool (toolCallId : Option Text) (content : Text)
  | assistant (content : Option Text) (toolCalls : List WireCall)
  deriving DecidableEq, Repr

variable (py : Interpreter F)

def wireCall (tc : ToolCall F) : WireCall := ⟨tc.id, tc.name, tc.arguments.dumps py false⟩

def wireMessage (m : LLMMessage F) : WireMessage :=
  match m.role with
  | .user => .user (m.content.getD [])
  | .tool => .tool m.toolCallId (m.content.getD [])
  | .assistant =>
    .assistant (if m.content.getD [] = [] then none else m.content) (m.toolCalls.map (wireCall py))

def systemTurn : Option Text → List WireMessage
  | some (c :: s) => [.system (c :: s)]
  | _ => []

def toMessages (messages : List (LLMMessage F)) (system : Option Text) : List WireMessage :=
  systemTurn system ++ messages.map (wireMessage py)

/-! ### Counting tokens -/

section Count

variable (encode : Text → Except Exn (List ℕ))

def countText (text : Text) : Except Exn ℕ := do
  let tokens ← encode text
  return tokens.length

/-- The text of a call that is counted. -/
def callText (tc : ToolCall F) : Text := tc.name ++ tc.arguments.dumps py false

def countMessage (m : LLMMessage F) : Except Exn ℕ := do
  let content ← countText encode (m.content.getD [])
  let calls ← m.toolCalls.mapM fun tc => countText encode (callText py tc)
  return content + 4 + calls.sum

/-- The text of the tool list, if there are tools. -/
def toolsText : Option (List (ToolSpec F)) → Option Text
  | some (t :: ts) => some ((Json.arr ((t :: ts).map ToolSpec.inputSchema)).dumps py false)
  | _ => none

def systemText : Option Text → Option Text
  | some (c :: s) => some (c :: s)
  | _ => none

def countOptional : Option Text → Except Exn ℕ
  | some text => countText encode text
  | none => .ok 0

def countTokens (messages : List (LLMMessage F)) (system : Option Text)
    (tools : Option (List (ToolSpec F))) : Except Exn ℕ := do
  let first ← countOptional encode (systemText system)
  let middle ← messages.mapM (countMessage py encode)
  let last ← countOptional encode (toolsText py tools)
  return first + middle.sum + last

/-- All texts that are encoded for a count. -/
def countedTexts (messages : List (LLMMessage F)) (system : Option Text)
    (tools : Option (List (ToolSpec F))) : List Text :=
  (systemText system).toList ++
    messages.flatMap (fun m => m.content.getD [] :: m.toolCalls.map (callText py)) ++
    (toolsText py tools).toList

variable {encode}

theorem countText_ok_iff (text : Text) :
    (∃ n, countText encode text = .ok n) ↔ ∃ tokens, encode text = .ok tokens := by
  rw [countText, exists_bind_ok_iff Iff.rfl fun _ => exists_pure_ok _, and_true]

theorem countOptional_ok_iff (text : Option Text) :
    (∃ n, countOptional encode text = .ok n) ↔
      ∀ t ∈ text.toList, ∃ tokens, encode t = .ok tokens := by
  cases text with
  | none => exact iff_of_true ⟨0, rfl⟩ fun _ h => absurd h List.not_mem_nil
  | some t =>
    rw [Option.toList_some, List.forall_mem_singleton]
    exact countText_ok_iff t

theorem countMessage_ok_iff (m : LLMMessage F) :
    (∃ n, countMessage py encode m = .ok n) ↔
      ∀ t ∈ m.content.getD [] :: m.toolCalls.map (callText py), ∃ tokens, encode t = .ok tokens := by
  rw [countMessage, List.forall_mem_cons, List.forall_mem_map]
  apply exists_bind_ok_iff (countText_ok_iff _)
  intro content
  rw [exists_bind_ok_iff exists_mapM_ok fun _ => exists_pure_ok _, and_true]
  simp only [countText_ok_iff]

/-- The count succeeds if and only if every text can be encoded. -/
theorem countTokens_ok_iff (messages : List (LLMMessage F)) (system : Option Text)
    (tools : Option (List (ToolSpec F))) :
    (∃ n, countTokens py encode messages system tools = .ok n) ↔
      ∀ t ∈ countedTexts py messages system tools, ∃ tokens, encode t = .ok tokens := by
  rw [countTokens, countedTexts, List.forall_mem_append, List.forall_mem_append, and_assoc]
  apply exists_bind_ok_iff (countOptional_ok_iff _)
  intro first
  rw [List.forall_mem_flatMap]
  apply exists_bind_ok_iff
  · rw [exists_mapM_ok]
    simp only [countMessage_ok_iff]
  · intro middle
    rw [exists_bind_ok_iff (countOptional_ok_iff _) fun _ => exists_pure_ok _, and_true]

end Count

end GroundedOps.Llm.OpenAI
