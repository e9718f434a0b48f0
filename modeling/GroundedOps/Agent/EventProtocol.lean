import GroundedOps.Agent.CitedRecords
import GroundedOps.Agent.GuardrailBounds
import GroundedOps.Library.Lists

/-!
# The streamed event protocol

A run that ends without an exception streams one round for every planning step:
the status, then a call and its result for every tool call of the reply. The
trace, the tool messages and the step count are read off the same rounds, and
consuming the stream gives back what it closed with.
-/

namespace GroundedOps.Agent.Orchestrator

open Python Llm Retrieval

variable {F : Type} {svc : Services F} {settings : Settings}

/-! ### Events of a history -/

@[simp] def eventOf : Action F → Option (AgentEvent F)
  | .emit event => some event
  | _ => none

def eventsOf (log : List (Action F)) : List (AgentEvent F) := log.filterMap eventOf

@[simp] theorem eventsOf_nil : eventsOf ([] : List (Action F)) = [] := rfl

@[simp] theorem eventsOf_append (a b : List (Action F)) :
    eventsOf (a ++ b) = eventsOf a ++ eventsOf b := List.filterMap_append

@[simp] theorem eventsOf_cons (a : Action F) (log : List (Action F)) :
    eventsOf (a :: log) = (eventOf a).toList ++ eventsOf log := by
  rw [eventsOf, List.filterMap_cons]
  cases eventOf a <;> rfl

theorem eventsOf_map_emit (events : List (AgentEvent F)) :
    eventsOf (events.map .emit) = events := by
  simp [eventsOf, List.filterMap_map, Function.comp_def]

/-- The replies to the requests that offer tools. -/
def plannedReplies (log : List (Action F)) : List (Except Exn (LLMResponse F)) :=
  ((completions log).filter WithTools).map Prod.snd

def toolTurns (messages : List (LLMMessage F)) : List (LLMMessage F) :=
  messages.filter fun m => m.role == .tool

/-! ### Rounds -/

/-- How one tool call was dealt with. `reported` is the latency of its result event;
a blocked call has none. -/
structure CallRecord (F : Type) where
  call : ToolCall F
  latency : ℚ
  summary : Text
  isError : Bool
  reported : Option ℚ
  content : Text

namespace CallRecord

def events (c : CallRecord F) : List (AgentEvent F) :=
  [.toolCall c.call.name c.call.arguments,
   .toolResult c.call.name c.summary c.isError c.reported]

def traceStep (step : ℕ) (c : CallRecord F) : TraceStep F :=
  ⟨step, c.call.name, c.call.arguments, c.latency, c.summary, c.isError⟩

def message (c : CallRecord F) : LLMMessage F := .toolResult c.call.id c.content c.isError

end CallRecord

/-- The reply to one planning request, with a record for each of its calls. -/
structure Round (F : Type) where
  reply : LLMResponse F
  records : List (CallRecord F)
  complete : records.map CallRecord.call = reply.toolCalls

def Round.carriesCalls (r : Round F) : Bool := !r.reply.toolCalls.isEmpty

/-- The events of the rounds that begin with planning step `step`. -/
def streamOf : ℕ → List (Round F) → List (AgentEvent F)
  | _, [] => []
  | step, r :: rounds =>
    .planning step :: r.records.flatMap CallRecord.events ++ streamOf (step + 1) rounds

def traceOf : ℕ → List (Round F) → List (TraceStep F)
  | _, [] => []
  | step, r :: rounds => r.records.map (CallRecord.traceStep step) ++ traceOf (step + 1) rounds

def turnsOf (rounds : List (Round F)) : List (LLMMessage F) :=
  rounds.flatMap fun r => r.records.map CallRecord.message

/-! ### One reply -/

/-- What dealing with these calls adds to a run. -/
structure Recorded (step : ℕ) (s s' : Run F) (records : List (CallRecord F)) : Prop where
  events : eventsOf s'.log = eventsOf s.log ++ records.flatMap CallRecord.events
  trace : s'.trace = s.trace ++ records.map (CallRecord.traceStep step)
  turns : toolTurns s'.messages = toolTurns s.messages ++ records.map CallRecord.message

theorem eventsOf_calls {tc : ToolCall F} {left : ℕ} {calls : List (Action F)}
    {result : Except Exn (ToolOutcome F)} (h : Attempts settings tc left calls result) :
    eventsOf calls = [] := by
  induction h with
  | retried message _ ih => simpa using ih
  | _ => rfl

theorem eventsOf_shown {registry registry' : CitationRegistry} {outcome : ToolOutcome F}
    {content : Text} {shown : List (Action F)}
    (h : Shown svc registry outcome content registry' shown) : eventsOf shown = [] := by
  cases h <;> rfl

theorem toolTurns_told (s : Run F) (id content : Text) (isError : Bool) :
    toolTurns (s.messages ++ [LLMMessage.toolResult id content isError]) =
      toolTurns s.messages ++ [LLMMessage.toolResult id content isError] := by
  rw [toolTurns, List.filter_append]
  rfl

/-- A call that is blocked or answered has one record. -/
theorem ToolStep.recorded {step : ℕ} {tc : ToolCall F} {s s' : Run F}
    (h : ToolStep svc settings step tc s (.ok ()) s') :
    ∃ c : CallRecord F, c.call = tc ∧ Recorded step s s' [c] := by
  cases h with
  | blocked _ =>
    exact ⟨⟨tc, 0, duplicateBlocked, true, none, duplicateAdvice⟩, rfl,
      by simp [CallRecord.events], rfl, toolTurns_told s _ _ _⟩
  | @answered calls outcome content registry shown latency _ hcalls hshown =>
    exact ⟨⟨tc, latency, summary outcome.text, outcome.isError, some (roundTenth latency),
      content⟩, rfl,
      by simp [CallRecord.events, eventsOf_calls hcalls, eventsOf_shown hshown], rfl,
      toolTurns_told s _ _ _⟩

theorem ToolSteps.recorded {step : ℕ} {tcs : List (ToolCall F)} {s s' : Run F}
    {r : Except Exn Unit} (h : ToolSteps svc settings step tcs s r s') (hr : r = .ok ()) :
    ∃ records : List (CallRecord F), records.map CallRecord.call = tcs ∧
      Recorded step s s' records := by
  induction h with
  | nil => exact ⟨[], rfl, by simp, by simp, by simp⟩
  | cons hstep _ ih =>
    obtain ⟨c, rfl, hc⟩ := hstep.recorded
    obtain ⟨records, rfl, hrecords⟩ := ih hr
    refine ⟨c :: records, rfl, ?_, ?_, ?_⟩
    · rw [hrecords.events, hc.events]
      simp
    · rw [hrecords.trace, hc.trace]
      simp
    · rw [hrecords.turns, hc.turns]
      simp
  | stop _ => cases hr

/-! ### The planning loop -/

/-- What the rounds from planning step `step` on add to a run. -/
structure Progress (step : ℕ) (s s' : Run F) (rounds : List (Round F)) : Prop where
  events : eventsOf s'.log = eventsOf s.log ++ streamOf step rounds
  replies : plannedReplies s'.log = plannedReplies s.log ++ rounds.map fun r => .ok r.reply
  trace : s'.trace = s.trace ++ traceOf step rounds
  turns : toolTurns s'.messages = toolTurns s.messages ++ turnsOf rounds

/-- The text is that of the last completion. -/
def Answered (log : List (Action F)) (text : Text) : Prop :=
  ∃ request response, (completions log).getLast? = some (request, .ok response) ∧
    text = response.text

theorem progress_counted (tools : List (ToolSpec F)) (step : ℕ) (s : Run F)
    (result : Except Exn ℤ) : Progress step s (counted tools s result) [] := by
  refine ⟨?_, ?_, ?_, ?_⟩ <;> simp [counted, logged, streamOf, traceOf, turnsOf, plannedReplies]

theorem progress_forced (step : ℕ) (s : Run F) (response : LLMResponse F) :
    Progress step s (forced settings s (.ok response)) [] := by
  refine ⟨?_, ?_, ?_, ?_⟩ <;>
    simp [forced, completed, told, logged, streamOf, traceOf, turnsOf, plannedReplies, WithTools,
      toolTurns, LLMMessage.user]

theorem answered_forced (s : Run F) (response : LLMResponse F) :
    Answered (forced settings s (.ok response)).log response.text :=
  ⟨⟨agentSystem, (told s (.user stopUsingTools)).messages, none, some settings.maxOutputTokens⟩,
    response, by simp [forced, completed, logged, told], rfl⟩

section Planned

variable (tools : List (ToolSpec F)) (step : ℕ) (s : Run F) (response : LLMResponse F)

theorem completions_planned : completions (planned settings tools step s (.ok response)).log =
    completions s.log ++
      [(⟨agentSystem, s.messages, some tools, some settings.maxOutputTokens⟩, .ok response)] := by
  simp [planned, completed, logged]

theorem answered_planned :
    Answered (planned settings tools step s (.ok response)).log response.text := by
  refine ⟨⟨agentSystem, s.messages, some tools, some settings.maxOutputTokens⟩, response, ?_, rfl⟩
  rw [completions_planned, List.getLast?_concat]

theorem eventsOf_planned : eventsOf (planned settings tools step s (.ok response)).log =
    eventsOf s.log ++ [.planning step] := by
  simp [planned, completed, logged]

theorem plannedReplies_planned :
    plannedReplies (planned settings tools step s (.ok response)).log =
      plannedReplies s.log ++ [.ok response] := by
  rw [plannedReplies, completions_planned, List.filter_append, List.map_append]
  rfl

end Planned

theorem Progress.trans {step : ℕ} {s s' s'' : Run F} {a b : List (Round F)}
    (h : Progress step s s' a) (h' : Progress (step + a.length) s' s'' b) :
    Progress step s s'' (a ++ b) := by
  have hstream : ∀ (a : List (Round F)) (step : ℕ),
      streamOf step (a ++ b) = streamOf step a ++ streamOf (step + a.length) b := by
    intro a
    induction a with
    | nil => simp [streamOf]
    | cons r a ih =>
      intro step
      rw [List.cons_append, streamOf, ih, streamOf, List.length_cons, List.append_assoc,
        Nat.add_right_comm, Nat.add_assoc]
  have htrace : ∀ (a : List (Round F)) (step : ℕ),
      traceOf step (a ++ b) = traceOf step a ++ traceOf (step + a.length) b := by
    intro a
    induction a with
    | nil => simp [traceOf]
    | cons r a ih =>
      intro step
      rw [List.cons_append, traceOf, ih, traceOf, List.length_cons, List.append_assoc,
        Nat.add_right_comm, Nat.add_assoc]
  refine ⟨?_, ?_, ?_, ?_⟩
  · rw [h'.events, h.events, hstream, List.append_assoc]
  · rw [h'.replies, h.replies, List.map_append, List.append_assoc]
  · rw [h'.trace, h.trace, htrace, List.append_assoc]
  · rw [h'.turns, h.turns, turnsOf, turnsOf, turnsOf, List.flatMap_append, List.append_assoc]

theorem plannedReplies_effect {step : ℕ} {tcs : List (ToolCall F)} {s s' : Run F}
    {r : Except Exn Unit} (h : ToolSteps svc settings step tcs s r s') :
    plannedReplies s'.log = plannedReplies s.log := by
  rw [plannedReplies, plannedReplies, h.completions]

/-- A planning step either opens a round with calls and goes on, or ends the loop with at
most one round without calls. -/
theorem PlanStep.progress {tools : List (ToolSpec F)} {step : ℕ} {s s' : Run F}
    {r : Option (Text × StopReason)} (h : PlanStep svc settings tools step s (.ok r) s') :
    (r = none → ∃ round : Round F, round.carriesCalls = true ∧ Progress step s s' [round]) ∧
      ∀ text reason, r = some (text, reason) → Answered s'.log text ∧
        ∃ rounds : List (Round F), Progress step s s' rounds ∧
          ∀ round ∈ rounds, round.carriesCalls = false := by
  cases h with
  | overBudget final _ =>
    refine ⟨by simp, fun text reason hr => ?_⟩
    cases hr
    refine ⟨answered_forced _ final, [], ?_, by simp⟩
    exact (progress_counted tools step s _).trans (progress_forced step _ final)
  | @answered projected response _ hcalls =>
    refine ⟨by simp, fun text reason hr => ?_⟩
    cases hr
    refine ⟨answered_planned tools step _ response, [⟨response, [], by simp [hcalls]⟩], ?_,
      by simp [Round.carriesCalls, hcalls]⟩
    have hcounted := progress_counted tools step s (.ok projected)
    refine hcounted.trans (b := [⟨response, [], by simp [hcalls]⟩]) ⟨?_, ?_, ?_, ?_⟩
    · rw [eventsOf_planned]
      rfl
    · rw [plannedReplies_planned]
      rfl
    · simp [traceOf, planned, completed]
      rfl
    · simp [turnsOf, planned, completed]
      rfl
  | @called projected response _ _ hne htools =>
    refine ⟨fun _ => ?_, by simp⟩
    obtain ⟨records, hrecords, hrecorded⟩ := htools.recorded rfl
    let round : Round F := ⟨response, records, hrecords⟩
    refine ⟨round, by simpa [Round.carriesCalls] using hne, ?_⟩
    refine (progress_counted tools step s (.ok projected)).trans (b := [round]) ⟨?_, ?_, ?_, ?_⟩
    · rw [hrecorded.events, told, eventsOf_planned]
      simp [streamOf, round]
    · rw [plannedReplies_effect htools, told, plannedReplies_planned]
      rfl
    · rw [hrecorded.trace]
      simp [traceOf, told, planned, completed, counted, logged, round]
    · rw [hrecorded.turns]
      simp [turnsOf, toolTurns, told, planned, completed, counted, logged, round, callTurn]

theorem PlanLoop.progress {tools : List (ToolSpec F)} {left step : ℕ} {s s' : Run F}
    {r : Except Exn (Text × StopReason × ℕ)} (h : PlanLoop svc settings tools left step s r s') :
    ∀ text reason steps, r = .ok (text, reason, steps) → Answered s'.log text ∧
      ∃ rounds : List (Round F), Progress step s s' rounds ∧
        steps = step + (rounds.filter Round.carriesCalls).length := by
  induction h with
  | capped final =>
    intro text reason steps hr
    cases hr
    exact ⟨answered_forced _ final, [], progress_forced _ _ final, by simp⟩
  | cappedFailed e => simp
  | failed hstep => simp
  | stopped hstep =>
    intro text reason steps hr
    cases hr
    obtain ⟨hanswered, rounds, hprogress, hcalls⟩ := hstep.progress.2 _ _ rfl
    refine ⟨hanswered, rounds, hprogress, ?_⟩
    rw [List.filter_eq_nil_iff.mpr fun round hround => by simp [hcalls round hround]]
    simp
  | continued hstep _ ih =>
    intro text reason steps hr
    obtain ⟨round, hcalls, hround⟩ := hstep.progress.1 rfl
    obtain ⟨hanswered, rounds, hprogress, hsteps⟩ := ih text reason steps hr
    refine ⟨hanswered, round :: rounds, hround.trans hprogress, ?_⟩
    rw [hsteps, List.filter_cons_of_pos hcalls, List.length_cons]
    omega

/-! ### Whole runs -/

/-- The result of a request. -/
structure AgentResult (F : Type) where
  answer : Text := []
  sources : List Source := []
  usedIndices : List ℕ := []
  trace : List (TraceStep F) := []
  usage : LLMUsage := 0
  costUsd : ℚ := 0
  model : Text
  steps : ℕ := 0
  stopReason : StopReason := .answered

/-- One event of the stream, consumed. -/
def consume (result : AgentResult F) : AgentEvent F → AgentResult F
  | .token text => { result with answer := result.answer ++ text }
  | .sources sources => { result with sources }
  | .trace trace => { result with trace }
  | .done data =>
    { result with
      usedIndices := data.usedIndices
      usage := data.usage
      costUsd := data.costUsd
      model := data.model
      steps := data.steps
      stopReason := data.stopReason }
  | _ => result

/-- `run`: the event stream of a run, consumed into a single result. -/
def runResult (svc : Services F) (settings : Settings) (question : Text) (topK : Option ℤ)
    (filters : Option SearchFilters) : Except Exn (AgentResult F) :=
  match (run svc settings question topK filters).1 with
  | .ok _ => .ok ((eventsOf (run svc settings question topK filters).2.log).foldl consume
      { model := svc.modelName })
  | .error e => .error e

theorem consume_records (result : AgentResult F) (records : List (CallRecord F)) :
    (records.flatMap CallRecord.events).foldl consume result = result := by
  induction records with
  | nil => rfl
  | cons c records ih => exact ih

theorem consume_stream (result : AgentResult F) (step : ℕ) (rounds : List (Round F)) :
    (streamOf step rounds).foldl consume result = result := by
  induction rounds generalizing step with
  | nil => rfl
  | cons r rounds ih =>
    rw [streamOf, List.cons_append, List.foldl_cons, List.foldl_append, consume_records]
    exact ih (step + 1)

theorem consume_tokens (result : AgentResult F) (texts : List Text) :
    (texts.map AgentEvent.token).foldl consume result =
      { result with answer := result.answer ++ texts.flatten } := by
  induction texts generalizing result with
  | nil => simp
  | cons text texts ih =>
    rw [List.map_cons, List.foldl_cons, ih]
    simp [consume]

/-- The stream of a run: the seeding status, a round for each planning step, the tokens,
then sources, trace and totals. The trace and the tool messages list the calls of the same
rounds in the same order; the answer is the validated text of the last completion. -/
structure Streamed (s : Run F) (rounds : List (Round F)) (tokens : List Text)
    (sources : List Source) (data : Done) : Prop where
  events : eventsOf s.log = .seeding :: streamOf 0 rounds ++ tokens.map .token ++
    [.sources sources, .trace s.trace, .done data]
  replies : plannedReplies s.log = rounds.map fun r => .ok r.reply
  trace : s.trace = traceOf 0 rounds
  turns : toolTurns s.messages = turnsOf rounds
  steps : data.steps = (rounds.filter Round.carriesCalls).length
  answer : ∃ text, Answered s.log text ∧
    validateAndStrip text s.registry = .ok (tokens.flatten, data.usedIndices)
  sources : sources = sourcesFor s.registry data.usedIndices

theorem Seeded.started {question : Text} {topK : ℤ} {filters : Option SearchFilters}
    {tools : List (ToolSpec F)} {s : Run F}
    (h : Seeded question topK filters (start svc settings) (.ok tools) s) :
    eventsOf s.log = [.seeding] ∧ plannedReplies s.log = [] ∧ s.trace = [] ∧
      toolTurns s.messages = [] := by
  cases h
  simp [logged, told, entered, start, plannedReplies, toolTurns, LLMMessage.user]

/-- The result of a stream is what the stream closed with. -/
theorem consume_streamed {s : Run F} {rounds : List (Round F)} {tokens : List Text}
    {sources : List Source} {data : Done} (h : Streamed s rounds tokens sources data)
    (modelName : Text) : (eventsOf s.log).foldl consume { model := modelName } =
      ⟨tokens.flatten, sources, data.usedIndices, s.trace, data.usage, data.costUsd, data.model,
        data.steps, data.stopReason⟩ := by
  have hrounds : (.seeding :: streamOf 0 rounds).foldl consume { model := modelName } =
      { model := modelName } := consume_stream _ 0 rounds
  rw [h.events, List.foldl_append, List.foldl_append, hrounds, consume_tokens]
  rfl

theorem run_streamed (svc : Services F) (settings : Settings) (question : Text)
    (topK : Option ℤ) (filters : Option SearchFilters)
    (hok : (run svc settings question topK filters).1 = .ok ()) :
    ∃ rounds tokens sources data,
      Streamed (run svc settings question topK filters).2 rounds tokens sources data := by
  have h := run_finished svc settings question topK filters
  rw [hok] at h
  generalize (run svc settings question topK filters).2 = s at h ⊢
  cases h with
  | @finished tools s₀ text reason step s₁ _ _ hseed hloop hdeliver =>
    obtain ⟨hevents, hreplies, htrace, hturns⟩ := hseed.started
    obtain ⟨hanswered, rounds, hprogress, hsteps⟩ := hloop.progress text reason step rfl
    cases hdeliver with
    | @delivered cleaned used hvalid =>
      have hcompletions : completions (logged s₁ ((closing s₁ cleaned used reason step).map
          Action.emit)).log = completions s₁.log := by
        simp [logged, completions_closing]
      let data : Done := ⟨used, s₁.usage, Core.costUsd s₁.model s₁.usage.inputTokens
        s₁.usage.outputTokens, s₁.model, step, reason⟩
      refine ⟨rounds, cleaned.toChunks tokenChunk, sourcesFor s₁.registry used, data, ?_, ?_, ?_,
        ?_, ?_, ⟨text, ?_, ?_⟩, rfl⟩
      · rw [logged, eventsOf_append, eventsOf_map_emit, hprogress.events, hevents, closing]
        simp
        rfl
      · rw [plannedReplies, hcompletions, ← plannedReplies, hprogress.replies, hreplies]
        rfl
      · exact hprogress.trace.trans (by rw [htrace, List.nil_append])
      · exact hprogress.turns.trans (by rw [hturns, List.nil_append])
      · simpa using hsteps
      · obtain ⟨request, response, hlast, htext⟩ := hanswered
        exact ⟨request, response, by rw [hcompletions, hlast], htext⟩
      · rw [flatten_toChunks]
        exact hvalid

/-- A run that ends without an exception streams the whole protocol, and consuming the
stream returns its answer, sources, trace and totals. -/
theorem events_protocol (svc : Services F) (settings : Settings) (question : Text)
    (topK : Option ℤ) (filters : Option SearchFilters)
    (hok : (run svc settings question topK filters).1 = .ok ()) :
    ∃ rounds tokens sources data,
      Streamed (run svc settings question topK filters).2 rounds tokens sources data ∧
      runResult svc settings question topK filters =
        .ok ⟨tokens.flatten, sources, data.usedIndices,
          (run svc settings question topK filters).2.trace, data.usage, data.costUsd, data.model,
          data.steps, data.stopReason⟩ := by
  obtain ⟨rounds, tokens, sources, data, h⟩ :=
    run_streamed svc settings question topK filters hok
  refine ⟨rounds, tokens, sources, data, h, ?_⟩
  rw [runResult, hok]
  exact congrArg Except.ok (consume_streamed h svc.modelName)

theorem events_protocol_scripted : ∃ rounds tokens sources data,
    Streamed (run (scripted [outageChunk] searchThenAnswer rollbackOutcome)
      ⟨8, 6, 30000, 15, 2, 2000⟩ "why".toList none none).2 rounds tokens sources data ∧
    runResult (scripted [outageChunk] searchThenAnswer rollbackOutcome)
      ⟨8, 6, 30000, 15, 2, 2000⟩ "why".toList none none =
        .ok ⟨tokens.flatten, sources, data.usedIndices,
          (run (scripted [outageChunk] searchThenAnswer rollbackOutcome)
            ⟨8, 6, 30000, 15, 2, 2000⟩ "why".toList none none).2.trace, data.usage, data.costUsd,
          data.model, data.steps, data.stopReason⟩ :=
  events_protocol _ _ _ _ _ (by decide +kernel)

end GroundedOps.Agent.Orchestrator
