import GroundedOps.Llm.AnthropicProvider
import GroundedOps.Llm.OpenAIProvider

/-!
# Well-formed conversations and their translations

A conversation is well formed if every assistant turn with tool calls is
followed by the results of exactly these calls, in order, and results occur
nowhere else. The translations of the providers respect this grouping, and
neither of them loses, repeats or reorders an item of any message list.
-/

namespace GroundedOps.Llm

open Python

variable {F : Type}

/-- The results answer the calls one by one. -/
def Answers (results : List (LLMMessage F)) (calls : List (ToolCall F)) : Prop :=
  (∀ r ∈ results, r.role = .tool) ∧
    results.map LLMMessage.toolCallId = calls.map fun tc => some tc.id

/-- User turns and rounds of calls with their results. -/
inductive WellFormed : List (LLMMessage F) → Prop
  | nil : WellFormed []
  | user {m ms} : m.role = .user → WellFormed ms → WellFormed (m :: ms)
  | round {m results ms} : m.role = .assistant → m.toolCalls ≠ [] →
      Answers results m.toolCalls → WellFormed ms → WellFormed (m :: (results ++ ms))

theorem WellFormed.append {ms ns : List (LLMMessage F)} (h : WellFormed ms)
    (hn : WellFormed ns) : WellFormed (ms ++ ns) := by
  induction h with
  | nil => exact hn
  | user hrole _ ih => exact .user hrole ih
  | round hrole hcalls hresults _ ih =>
    rw [List.cons_append, List.append_assoc]
    exact .round hrole hcalls hresults ih

/-- How a provider writes user turns, assistant turns and runs of results. -/
structure WireFormat (F W : Type) where
  userTurn : LLMMessage F → W
  assistantTurn : LLMMessage F → W
  resultTurns : List (LLMMessage F) → List W

/-- The translation of a well-formed conversation, turn by turn. -/
inductive Translated {W : Type} (wire : WireFormat F W) : List (LLMMessage F) → List W → Prop
  | nil : Translated wire [] []
  | user {m ms ws} : m.role = .user → Translated wire ms ws →
      Translated wire (m :: ms) (wire.userTurn m :: ws)
  | round {m results ms ws} : m.role = .assistant → m.toolCalls ≠ [] →
      Answers results m.toolCalls → Translated wire ms ws →
      Translated wire (m :: (results ++ ms))
        (wire.assistantTurn m :: (wire.resultTurns results ++ ws))

/-- What a message carries: a text, a call or a result. The arguments of calls have type `A`. -/
inductive Item (A : Type)
  | said (role : Role) (text : Text)
  | called (id name : Text) (arguments : A)
  | returned (toolCallId : Option Text) (content : Text)
  deriving DecidableEq

def said {A : Type} (role : Role) (text : Text) : List (Item A) :=
  if text.isEmpty then [] else [.said role text]

def LLMMessage.items {A : Type} (write : Json F → A) (m : LLMMessage F) : List (Item A) :=
  match m.role with
  | .user => said .user (m.content.getD [])
  | .assistant =>
    said .assistant (m.content.getD []) ++
      m.toolCalls.map fun tc => .called tc.id tc.name (write tc.arguments)
  | .tool => [.returned m.toolCallId (m.content.getD [])]

namespace Anthropic

/-- One user turn holds all results of a round. -/
def wireFormat : WireFormat F (WireMessage F) where
  userTurn := userTurn
  assistantTurn := assistantTurn
  resultTurns results := [⟨.user, .blocks (results.map resultBlock)⟩]

def Block.items (role : Role) : Block F → List (Item (Json F))
  | .text t => said role t
  | .toolUse id name input => [.called id name input]
  | .toolResult id content _ => [.returned id content]

def WireMessage.items (w : WireMessage F) : List (Item (Json F)) :=
  match w.content with
  | .text t => said w.role t
  | .blocks blocks => blocks.flatMap (Block.items w.role)

/-- Messages written so far do not influence the translation of the next ones. -/
theorem addMessage_prepend (o : List (WireMessage F)) (b : Buffers F) (m : LLMMessage F) :
    addMessage { b with out := o ++ b.out } m =
      { addMessage b m with out := o ++ (addMessage b m).out } := by
  by_cases hp : b.pending.isEmpty <;> cases hrole : m.role <;> simp [addMessage, flush, hp, hrole]

theorem foldl_prepend (o : List (WireMessage F)) (b : Buffers F) (ms : List (LLMMessage F)) :
    ms.foldl addMessage { b with out := o ++ b.out } =
      { ms.foldl addMessage b with out := o ++ (ms.foldl addMessage b).out } := by
  induction ms generalizing b with
  | nil => rfl
  | cons m ms ih => rw [List.foldl_cons, addMessage_prepend, ih, List.foldl_cons]

theorem flush_prepend (o : List (WireMessage F)) (b : Buffers F) :
    (flush { b with out := o ++ b.out }).out = o ++ (flush b).out := by
  simp only [flush]
  split_ifs <;> simp

/-- With an empty result buffer the rest is translated on its own. -/
theorem flush_foldl_out (o : List (WireMessage F)) (ms : List (LLMMessage F)) :
    (flush (ms.foldl addMessage { out := o, pending := [] })).out = o ++ toMessages ms := by
  have h := foldl_prepend o {} ms
  rw [List.append_nil] at h
  rw [h, flush_prepend, toMessages]

/-- Results only fill the buffer. -/
theorem foldl_results (b : Buffers F) {results : List (LLMMessage F)}
    (h : ∀ r ∈ results, r.role = .tool) :
    results.foldl addMessage b = { b with pending := b.pending ++ results.map resultBlock } := by
  induction results generalizing b with
  | nil => simp
  | cons r results ih =>
    have hr : addMessage b r = { b with pending := b.pending ++ [resultBlock r] } := by
      simp [addMessage, h r (by simp)]
    rw [List.foldl_cons, hr, ih _ fun x hx => h x (by simp [hx])]
    simp

@[simp] theorem flush_flush (b : Buffers F) : flush (flush b) = flush b := by
  by_cases h : b.pending.isEmpty <;> simp [flush, h]

/-- The buffer leaves before any other message is written. -/
theorem flush_foldl_wellFormed (b : Buffers F) {ms : List (LLMMessage F)} (h : WellFormed ms) :
    flush (ms.foldl addMessage b) = flush (ms.foldl addMessage (flush b)) := by
  cases h with
  | nil => simp
  | user hrole _ => simp [addMessage, hrole]
  | round hrole _ _ _ => simp [addMessage, hrole]

theorem toMessages_translated {ms : List (LLMMessage F)} (h : WellFormed ms) :
    Translated wireFormat ms (toMessages ms) := by
  induction h with
  | nil => exact .nil
  | @user m ms hrole _ ih =>
    have hadd : addMessage {} m = { out := [userTurn m] } := by simp [addMessage, flush, hrole]
    have hm : toMessages (m :: ms) = userTurn m :: toMessages ms := by
      rw [toMessages, List.foldl_cons, hadd, flush_foldl_out, List.singleton_append]
    rw [hm]
    exact .user hrole ih
  | @round m results ms hrole hcalls hresults hms ih =>
    have hadd : addMessage {} m = { out := [assistantTurn m] } := by
      simp [addMessage, flush, hrole]
    have hne : results.map resultBlock ≠ [] := by
      intro hnil
      have hids := hresults.2
      rw [List.map_eq_nil_iff.mp hnil] at hids
      exact hcalls (List.map_eq_nil_iff.mp hids.symm)
    have hflush : flush { out := [assistantTurn m], pending := results.map resultBlock } =
        { out := [assistantTurn m, ⟨.user, .blocks (results.map resultBlock)⟩] } := by
      rw [flush, if_neg (by simpa using hne)]
      rfl
    have hm : toMessages (m :: (results ++ ms)) =
        assistantTurn m :: (wireFormat.resultTurns results ++ toMessages ms) := by
      rw [toMessages, List.foldl_cons, hadd, List.foldl_append, foldl_results _ hresults.1,
        flush_foldl_wellFormed _ hms, List.nil_append, hflush, flush_foldl_out]
      rfl
    rw [hm]
    exact .round hrole hcalls hresults ih

theorem items_assistantTurn (m : LLMMessage F) (h : m.role = .assistant) :
    (assistantTurn m).items = m.items id := by
  have hcalls : (m.toolCalls.map fun tc => Block.toolUse tc.id tc.name tc.arguments).flatMap
      (Block.items Role.assistant) =
        m.toolCalls.map fun tc => .called tc.id tc.name tc.arguments := by
    rw [List.flatMap_map, List.map_eq_flatMap]
    rfl
  by_cases hsaid : (m.content.getD []).isEmpty
  · cases hc : m.toolCalls with
    | nil => simp [assistantTurn, WireMessage.items, LLMMessage.items, h, hsaid, hc, said]
    | cons tc calls =>
      rw [hc] at hcalls
      simp only [assistantTurn, WireMessage.items, LLMMessage.items, h, hsaid, hc, said,
        if_true, List.nil_append, List.map_cons, List.isEmpty_cons, Bool.false_eq_true, if_false]
      exact hcalls
  · simp [assistantTurn, WireMessage.items, LLMMessage.items, h, hsaid, hcalls, said, Block.items]

/-- Everything in the buffers, in the order of the messages it came from. -/
def Buffers.items (b : Buffers F) : List (Item (Json F)) :=
  b.out.flatMap WireMessage.items ++ b.pending.flatMap (Block.items Role.user)

theorem items_flush (b : Buffers F) : Buffers.items (flush b) = Buffers.items b := by
  by_cases h : b.pending = []
  · simp [flush, h]
  · simp [flush, Buffers.items, WireMessage.items, h]

theorem items_addMessage (b : Buffers F) (m : LLMMessage F) :
    Buffers.items (addMessage b m) = Buffers.items b ++ m.items id := by
  have hpending : (flush b).pending = [] := by
    by_cases h : b.pending = [] <;> simp [flush, h]
  rw [← items_flush b]
  cases h : m.role with
  | tool =>
    rw [items_flush]
    simp [addMessage, h, Buffers.items, LLMMessage.items, resultBlock, Block.items]
  | user =>
    simp [addMessage, h, Buffers.items, hpending, LLMMessage.items, userTurn, WireMessage.items]
  | assistant =>
    simp [addMessage, h, Buffers.items, hpending, items_assistantTurn m h]

/-- No text, call or result of any message list is lost, repeated or reordered. -/
theorem items_toMessages (ms : List (LLMMessage F)) :
    (toMessages ms).flatMap WireMessage.items = ms.flatMap (LLMMessage.items id) := by
  have hfold : ∀ b : Buffers F, Buffers.items (ms.foldl addMessage b) =
      Buffers.items b ++ ms.flatMap (LLMMessage.items id) := by
    induction ms with
    | nil => simp
    | cons m ms ih =>
      intro b
      rw [List.foldl_cons, ih, items_addMessage]
      simp
  have hpending : (flush (ms.foldl addMessage {})).pending = [] := by
    by_cases h : (ms.foldl addMessage {}).pending = [] <;> simp [flush, h]
  have h := items_flush (ms.foldl addMessage {})
  rw [hfold {}] at h
  simpa [Buffers.items, hpending, toMessages] using h

end Anthropic

namespace OpenAI

variable (py : Interpreter F)

/-- Every result is a message of its own. -/
def wireFormat : WireFormat F WireMessage where
  userTurn := wireMessage py
  assistantTurn := wireMessage py
  resultTurns results := results.map (wireMessage py)

theorem map_translated {ms : List (LLMMessage F)} (h : WellFormed ms) :
    Translated (wireFormat py) ms (ms.map (wireMessage py)) := by
  induction h with
  | nil => exact .nil
  | user hrole _ ih => exact .user hrole ih
  | round hrole hcalls hresults _ ih =>
    rw [List.map_cons, List.map_append]
    exact .round hrole hcalls hresults ih

def WireMessage.items : WireMessage → List (Item Text)
  | .system _ => []
  | .user content => said .user content
  | .tool id content => [.returned id content]
  | .assistant content calls =>
    said .assistant (content.getD []) ++
      calls.map fun tc => .called tc.id tc.name tc.arguments

theorem items_wireMessage (m : LLMMessage F) :
    (wireMessage py m).items = m.items (Json.dumps py false) := by
  cases h : m.role with
  | user => simp [wireMessage, LLMMessage.items, WireMessage.items, h]
  | tool => simp [wireMessage, LLMMessage.items, WireMessage.items, h]
  | assistant =>
    by_cases hc : m.content.getD [] = [] <;>
      simp [wireMessage, LLMMessage.items, WireMessage.items, h, hc, wireCall, Function.comp_def]

theorem items_toMessages (ms : List (LLMMessage F)) (system : Option Text) :
    (toMessages py ms system).flatMap WireMessage.items =
      ms.flatMap (LLMMessage.items (Json.dumps py false)) := by
  have hsystem : (systemTurn system).flatMap WireMessage.items = [] := by
    cases system with
    | none => rfl
    | some s => cases s <;> rfl
  simp [toMessages, hsystem, List.flatMap_map, items_wireMessage]

end OpenAI

end GroundedOps.Llm
