import GroundedOps.Llm.Types

/-!
# Translation into the Anthropic message format

Consecutive tool results are collected in a buffer and leave it as one user
turn, as soon as a message of another role or the end of the list is reached.
-/

namespace GroundedOps.Llm.Anthropic

open Python

variable {F : Type}

inductive Block (F : Type)
  | text (text : Text)
  | toolUse (id name : Text) (input : Json F)
  | toolResult (toolUseId : Option Text) (content : Text) (isError : Bool)

inductive Content (F : Type)
  | text (text : Text)
  | blocks (blocks : List (Block F))

structure WireMessage (F : Type) where
  role : Role
  content : Content F

/-- The two lists the translation loop appends to. -/
structure Buffers (F : Type) where
  out : List (WireMessage F) := []
  pending : List (Block F) := []

def flush (b : Buffers F) : Buffers F :=
  if b.pending.isEmpty then b
  else { out := b.out ++ [⟨.user, .blocks b.pending⟩], pending := [] }

def resultBlock (m : LLMMessage F) : Block F :=
  .toolResult m.toolCallId (m.content.getD []) m.isError

def userTurn (m : LLMMessage F) : WireMessage F := ⟨.user, .text (m.content.getD [])⟩

def assistantTurn (m : LLMMessage F) : WireMessage F :=
  let said := m.content.getD []
  let blocks := (if said.isEmpty then [] else [.text said]) ++
    m.toolCalls.map fun tc => .toolUse tc.id tc.name tc.arguments
  ⟨.assistant, if blocks.isEmpty then .text said else .blocks blocks⟩

/-- One round of the loop. -/
def addMessage (b : Buffers F) (m : LLMMessage F) : Buffers F :=
  match m.role with
  | .tool => { b with pending := b.pending ++ [resultBlock m] }
  | .user => { flush b with out := (flush b).out ++ [userTurn m] }
  | .assistant => { flush b with out := (flush b).out ++ [assistantTurn m] }

def toMessages (messages : List (LLMMessage F)) : List (WireMessage F) :=
  (flush (messages.foldl addMessage {})).out

end GroundedOps.Llm.Anthropic
