import GroundedOps.Agent.OrchestratorRuns
import GroundedOps.Llm.Conversation

/-!
# The conversation sent to a provider

Between two steps of the loop the messages form a well-formed conversation; a
step adds a round of calls with all its results or ends the run, and requests
are only made in between.
-/

namespace GroundedOps.Agent.Orchestrator

open Python Llm Retrieval

variable {F : Type} {svc : Services F} {settings : Settings}

/-- The request an action sends to the provider. -/
@[simp] def requestOf : Action F → Option (Request F)
  | .countTokens request _ => some request
  | .complete request _ => some request
  | _ => none

def requests (log : List (Action F)) : List (Request F) := log.filterMap requestOf

@[simp] theorem requests_append (a b : List (Action F)) :
    requests (a ++ b) = requests a ++ requests b := List.filterMap_append

@[simp] theorem requests_nil : requests ([] : List (Action F)) = [] := rfl

@[simp] theorem requests_cons (a : Action F) (log : List (Action F)) :
    requests (a :: log) = (requestOf a).toList ++ requests log := by
  rw [requests, List.filterMap_cons]
  cases requestOf a <;> rfl

/-- A conversation a provider accepts. -/
structure Sendable (messages : List (LLMMessage F)) : Prop where
  opens : ∃ m rest, messages = m :: rest ∧ m.role = .user
  wellFormed : WellFormed messages

theorem Sendable.append {ms ns : List (LLMMessage F)} (h : Sendable ms) (hn : WellFormed ns) :
    Sendable (ms ++ ns) := by
  obtain ⟨m, rest, rfl, hm⟩ := h.opens
  exact ⟨⟨m, rest ++ ns, rfl, hm⟩, h.wellFormed.append hn⟩

/-! ### Tool calls send no request and answer their call -/

theorem ToolStep.messages {step : ℕ} {tc : ToolCall F} {s s' : Run F}
    (h : ToolStep svc settings step tc s (.ok ()) s') :
    ∃ m, s'.messages = s.messages ++ [m] ∧ m.role = .tool ∧ m.toolCallId = some tc.id := by
  cases h with
  | blocked _ => exact ⟨_, rfl, rfl, rfl⟩
  | answered _ _ _ _ => exact ⟨_, rfl, rfl, rfl⟩

theorem ToolSteps.requests {step : ℕ} {tcs : List (ToolCall F)} {s s' : Run F}
    {r : Except Exn Unit} (h : ToolSteps svc settings step tcs s r s') :
    requests s'.log = requests s.log :=
  h.filterMap fun a ha => by cases a <;> first | rfl | exact ha.elim

theorem ToolSteps.messages {step : ℕ} {tcs : List (ToolCall F)} {s s' : Run F}
    (h : ToolSteps svc settings step tcs s (.ok ()) s') :
    ∃ results, s'.messages = s.messages ++ results ∧ Answers results tcs := by
  generalize hr : (Except.ok () : Except Exn Unit) = r at h
  induction h with
  | nil => exact ⟨[], by simp, by simp [Answers]⟩
  | cons hstep _ ih =>
    obtain ⟨m, hm, hrole, hid⟩ := hstep.messages
    obtain ⟨results, hresults, hroles, hids⟩ := ih hr
    refine ⟨m :: results, by simp [hresults, hm], ?_, by simp [hid, hids]⟩
    intro x hx
    rcases List.mem_cons.mp hx with rfl | hx
    · exact hrole
    · exact hroles x hx
  | stop _ => cases hr

/-! ### Requests between the steps -/

/-- The requests of a history are all well formed. -/
def AllSendable (log : List (Action F)) : Prop := ∀ request ∈ requests log, Sendable request.messages

theorem allSendable_append {a b : List (Action F)} :
    AllSendable (a ++ b) ↔ AllSendable a ∧ AllSendable b := by
  simp [AllSendable, or_imp, forall_and]

/-- The invariant of the planning loop. -/
structure Conversing (s : Run F) : Prop where
  sendable : Sendable s.messages
  sent : AllSendable s.log

theorem Conversing.counted {s : Run F} (h : Conversing s) (tools : List (ToolSpec F))
    (result : Except Exn ℤ) : Conversing (counted tools s result) := by
  refine ⟨h.sendable, allSendable_append.mpr ⟨h.sent, ?_⟩⟩
  simpa [AllSendable] using h.sendable

theorem Conversing.completed {s : Run F} (h : Conversing s) (tools : Option (List (ToolSpec F)))
    (result : Except Exn (LLMResponse F)) : Conversing (completed settings tools s result) := by
  have hlog : AllSendable (s.log ++ [.complete ⟨agentSystem, s.messages, tools,
      some settings.maxOutputTokens⟩ result]) := by
    refine allSendable_append.mpr ⟨h.sent, ?_⟩
    simpa [AllSendable] using h.sendable
  cases result with
  | ok response => exact ⟨h.sendable, hlog⟩
  | error e => exact ⟨h.sendable, hlog⟩

theorem Conversing.forced {s : Run F} (h : Conversing s) (result : Except Exn (LLMResponse F)) :
    Conversing (forced settings s result) := by
  have htold : Conversing (told s (.user stopUsingTools)) :=
    ⟨h.sendable.append (.user rfl .nil), h.sent⟩
  exact htold.completed none result

theorem Conversing.planned {s : Run F} (h : Conversing s) (tools : List (ToolSpec F)) (step : ℕ)
    (result : Except Exn (LLMResponse F)) : Conversing (planned settings tools step s result) := by
  have hemit : Conversing (logged s [.emit (.planning step)]) :=
    ⟨h.sendable, allSendable_append.mpr ⟨h.sent, by simp [AllSendable]⟩⟩
  have hdone : Conversing (Orchestrator.completed settings (some tools) _ result) :=
    hemit.completed (some tools) result
  cases result with
  | ok response => exact ⟨hdone.sendable, hdone.sent⟩
  | error e => exact ⟨hdone.sendable, hdone.sent⟩

theorem PlanStep.sent {tools : List (ToolSpec F)} {step : ℕ} {s s' : Run F}
    {r : Except Exn (Option (Text × StopReason))} (h : PlanStep svc settings tools step s r s')
    (hs : Conversing s) : AllSendable s'.log := by
  cases h with
  | countFailed e => exact (hs.counted tools _).sent
  | overBudget final _ => exact ((hs.counted tools _).forced _).sent
  | overBudgetFailed e _ => exact ((hs.counted tools _).forced _).sent
  | planFailed e _ => exact ((hs.counted tools _).planned tools step _).sent
  | answered _ _ => exact ((hs.counted tools _).planned tools step _).sent
  | called _ _ htools =>
    rw [AllSendable, htools.requests]
    exact ((hs.counted tools _).planned tools step _).sent
  | callFailed _ _ htools =>
    rw [AllSendable, htools.requests]
    exact ((hs.counted tools _).planned tools step _).sent

/-- A step that goes on has added one complete round. -/
theorem PlanStep.conversing {tools : List (ToolSpec F)} {step : ℕ} {s s' : Run F}
    (h : PlanStep svc settings tools step s (.ok none) s') (hs : Conversing s) :
    Conversing s' := by
  refine ⟨?_, h.sent hs⟩
  cases h with
  | @called projected response _ _ hcalls htools =>
    obtain ⟨results, hmessages, hresults⟩ := htools.messages
    have hplanned : Conversing (planned settings tools step _ (.ok response)) :=
      (hs.counted tools (.ok projected)).planned tools step (.ok response)
    have hround : WellFormed (callTurn response :: (results ++ [])) :=
      .round rfl hcalls hresults .nil
    rw [hmessages, told, List.append_assoc]
    exact hplanned.sendable.append (by simpa using hround)

theorem PlanLoop.sent {tools : List (ToolSpec F)} {left step : ℕ} {s s' : Run F}
    {r : Except Exn (Text × StopReason × ℕ)}
    (h : PlanLoop svc settings tools left step s r s') (hs : Conversing s) :
    AllSendable s'.log := by
  induction h with
  | capped final => exact (hs.forced _).sent
  | cappedFailed e => exact (hs.forced _).sent
  | failed hstep => exact hstep.sent hs
  | stopped hstep => exact hstep.sent hs
  | continued hstep _ ih => exact ih (hstep.conversing hs)

theorem Seeded.conversing {question : Text} {topK : ℤ} {filters : Option SearchFilters}
    {tools : List (ToolSpec F)} {s : Run F}
    (h : Seeded question topK filters (start svc settings) (.ok tools) s) : Conversing s := by
  cases h with
  | ready chunks _ =>
    exact ⟨⟨⟨_, [], rfl, rfl⟩, .user rfl .nil⟩, by
      simp [AllSendable, told, logged, entered, start]⟩

theorem Finished.sent {question : Text} {topK : ℤ} {filters : Option SearchFilters}
    {r : Except Exn Unit} {s : Run F} (h : Finished svc settings question topK filters r s) :
    AllSendable s.log := by
  cases h with
  | seedFailed hseed =>
    cases hseed <;> simp [AllSendable, logged, entered, start]
  | loopFailed hseed hloop => exact hloop.sent hseed.conversing
  | finished hseed hloop hdeliver =>
    have hsent := hloop.sent hseed.conversing
    cases hdeliver with
    | unreadable _ => exact hsent
    | delivered _ =>
      refine allSendable_append.mpr ⟨hsent, ?_⟩
      simp [AllSendable, requests, List.filterMap_map, Function.comp_def]

/-- A request with a well-formed conversation whose translations keep its turns and
lose nothing of it. -/
structure WellSent (py : Interpreter F) (request : Request F) : Prop where
  opens : ∃ m rest, request.messages = m :: rest ∧ m.role = .user
  wellFormed : WellFormed request.messages
  anthropic_turns : Translated Anthropic.wireFormat request.messages
    (Anthropic.toMessages request.messages)
  anthropic_items : (Anthropic.toMessages request.messages).flatMap Anthropic.WireMessage.items =
    request.messages.flatMap (LLMMessage.items id)
  openai_turns : ∃ turns, OpenAI.toMessages py request.messages (some request.system) =
      OpenAI.systemTurn (some request.system) ++ turns ∧
    Translated (OpenAI.wireFormat py) request.messages turns
  openai_items : (OpenAI.toMessages py request.messages (some request.system)).flatMap
      OpenAI.WireMessage.items =
    request.messages.flatMap (LLMMessage.items (Json.dumps py false))

def EachWellSent (py : Interpreter F) (log : List (Action F)) : Prop :=
  ∀ request ∈ requests log, WellSent py request

/-- Every run sends well-formed conversations only, whatever its collaborators do. -/
theorem sent_conversations_wellFormed (svc : Services F) (settings : Settings) (question : Text)
    (topK : Option ℤ) (filters : Option SearchFilters) :
    EachWellSent svc.py (run svc settings question topK filters).2.log := by
  intro request hrequest
  obtain ⟨hopens, hwell⟩ := (run_finished svc settings question topK filters).sent request hrequest
  exact
    { opens := hopens
      wellFormed := hwell
      anthropic_turns := Anthropic.toMessages_translated hwell
      anthropic_items := Anthropic.items_toMessages _
      openai_turns := ⟨_, rfl, OpenAI.map_translated svc.py hwell⟩
      openai_items := OpenAI.items_toMessages svc.py _ _ }

end GroundedOps.Agent.Orchestrator
