import GroundedOps.Library.Program
import GroundedOps.Agent.Orchestrator

/-!
# What the agent loop can do

The relations below list, for every part of the loop, its possible results and
the states they lead to, whatever the collaborators answer. Each program has one
specification lemma; properties of runs are proved by induction on the relations.
-/

namespace GroundedOps.Agent.Orchestrator

open Python Llm Retrieval Program

variable {F : Type} (svc : Services F) (settings : Settings)

/-! ### States -/

def logged (s : Run F) (actions : List (Action F)) : Run F := { s with log := s.log ++ actions }

def told (s : Run F) (message : LLMMessage F) : Run F :=
  { s with messages := s.messages ++ [message] }

def counted (tools : List (ToolSpec F)) (s : Run F) (result : Except Exn ℤ) : Run F :=
  logged s [.countTokens ⟨agentSystem, s.messages, some tools, none⟩ result]

/-- The state behind a completion, with its usage and model accounted for. -/
def completed (tools : Option (List (ToolSpec F))) (s : Run F)
    (result : Except Exn (LLMResponse F)) : Run F :=
  let s' := logged s
    [.complete ⟨agentSystem, s.messages, tools, some settings.maxOutputTokens⟩ result]
  match result with
  | .ok response =>
    { s' with
      usage := s.usage + response.usage
      model := if response.model.isEmpty then s.model else response.model }
  | .error _ => s'

def forced (s : Run F) (result : Except Exn (LLMResponse F)) : Run F :=
  completed settings none (told s (.user stopUsingTools)) result

def planned (tools : List (ToolSpec F)) (step : ℕ) (s : Run F)
    (result : Except Exn (LLMResponse F)) : Run F :=
  let s' := completed settings (some tools) (logged s [.emit (.planning step)]) result
  match result with
  | .ok response => { s' with budget := s'.budget.reconcile response.usage }
  | .error _ => s'

def callTurn (response : LLMResponse F) : LLMMessage F :=
  { role := .assistant
    content := if response.text.isEmpty then none else some response.text
    toolCalls := response.toolCalls }

/-! ### Relations -/

/-- The attempts at one tool call: failures that were retried, then the last one. -/
inductive Attempts (tc : ToolCall F) :
    ℕ → List (Action F) → Except Exn (ToolOutcome F) → Prop
  | returned {left} (outcome) :
      Attempts tc left
        [.call tc.name tc.arguments settings.toolTimeoutSeconds (.ok outcome)] (.ok outcome)
  | gaveUp (message) :
      Attempts tc 0
        [.call tc.name tc.arguments settings.toolTimeoutSeconds (.error (.toolError message))]
        (.ok ⟨"Tool error: ".toList ++ message, .null, true⟩)
  | raised {left e} : (∀ message, e ≠ .toolError message) →
      Attempts tc left
        [.call tc.name tc.arguments settings.toolTimeoutSeconds (.error e)] (.error e)
  | retried {left calls result} (message) : Attempts tc left calls result →
      Attempts tc (left + 1)
        (.call tc.name tc.arguments settings.toolTimeoutSeconds (.error (.toolError message)) ::
          calls) result

/-- What is shown to the model for an outcome, and the registry it leads to. -/
inductive Shown (registry : CitationRegistry) (outcome : ToolOutcome F) :
    Text → CitationRegistry → List (Action F) → Prop
  | plain : extractChunkRecords svc.py outcome = .ok [] →
      Shown registry outcome outcome.text registry []
  | records {chunks entries} : extractChunkRecords svc.py outcome = .ok chunks → chunks ≠ [] →
      entries = (registry.add chunks).1.entriesFor ((registry.add chunks).2.map Nat.cast) →
      Shown registry outcome (searchResults ++ renderRecords entries) (registry.add chunks).1
        [.render entries]

def marked (tc : ToolCall F) (s : Run F) : Run F :=
  { s with cycles := ⟨cycleKey svc.py tc.name tc.arguments :: s.cycles.seen⟩ }

inductive ToolStep (step : ℕ) (tc : ToolCall F) (s : Run F) : Except Exn Unit → Run F → Prop
  | blocked : cycleKey svc.py tc.name tc.arguments ∈ s.cycles.seen →
      ToolStep step tc s (.ok ())
        { s with
          trace := s.trace ++ [⟨step, tc.name, tc.arguments, 0, duplicateBlocked, true⟩]
          messages := s.messages ++ [.toolResult tc.id duplicateAdvice true]
          log := s.log ++ [.emit (.toolCall tc.name tc.arguments),
            .emit (.toolResult tc.name duplicateBlocked true none)] }
  | answered {calls outcome content registry shown} (latency : ℚ) :
      cycleKey svc.py tc.name tc.arguments ∉ s.cycles.seen →
      Attempts settings tc settings.maxToolRetries calls (.ok outcome) →
      Shown svc s.registry outcome content registry shown →
      ToolStep step tc s (.ok ())
        { marked svc tc s with
          registry := registry
          trace := s.trace ++
            [⟨step, tc.name, tc.arguments, latency, summary outcome.text, outcome.isError⟩]
          messages := s.messages ++ [.toolResult tc.id content outcome.isError]
          log := s.log ++ (.emit (.toolCall tc.name tc.arguments) :: calls ++ shown ++
            [.emit (.toolResult tc.name (summary outcome.text) outcome.isError
              (some (roundTenth latency)))]) }
  | raised {calls e} :
      cycleKey svc.py tc.name tc.arguments ∉ s.cycles.seen →
      Attempts settings tc settings.maxToolRetries calls (.error e) →
      ToolStep step tc s (.error e)
        (logged (marked svc tc s) (.emit (.toolCall tc.name tc.arguments) :: calls))
  | unreadable {calls outcome e} :
      cycleKey svc.py tc.name tc.arguments ∉ s.cycles.seen →
      Attempts settings tc settings.maxToolRetries calls (.ok outcome) →
      extractChunkRecords svc.py outcome = .error e →
      ToolStep step tc s (.error e)
        (logged (marked svc tc s) (.emit (.toolCall tc.name tc.arguments) :: calls))

/-- The calls of one reply, up to the first exception. -/
inductive ToolSteps (step : ℕ) : List (ToolCall F) → Run F → Except Exn Unit → Run F → Prop
  | nil {s} : ToolSteps step [] s (.ok ()) s
  | cons {tc tcs s s' s'' r} : ToolStep svc settings step tc s (.ok ()) s' →
      ToolSteps step tcs s' r s'' → ToolSteps step (tc :: tcs) s r s''
  | stop {tc tcs s s' e} : ToolStep svc settings step tc s (.error e) s' →
      ToolSteps step (tc :: tcs) s (.error e) s'

inductive PlanStep (tools : List (ToolSpec F)) (step : ℕ) (s : Run F) :
    Except Exn (Option (Text × StopReason)) → Run F → Prop
  | countFailed (e) : PlanStep tools step s (.error e) (counted tools s (.error e))
  | overBudget {projected} (final : LLMResponse F) : s.budget.canAfford projected = false →
      PlanStep tools step s (.ok (some (final.text, .tokenBudget)))
        (forced settings (counted tools s (.ok projected)) (.ok final))
  | overBudgetFailed {projected} (e) : s.budget.canAfford projected = false →
      PlanStep tools step s (.error e)
        (forced settings (counted tools s (.ok projected)) (.error e))
  | planFailed {projected} (e) : s.budget.canAfford projected = true →
      PlanStep tools step s (.error e)
        (planned settings tools step (counted tools s (.ok projected)) (.error e))
  | answered {projected response} : s.budget.canAfford projected = true →
      response.toolCalls = [] →
      PlanStep tools step s (.ok (some (response.text, .answered)))
        (planned settings tools step (counted tools s (.ok projected)) (.ok response))
  | called {projected response s'} : s.budget.canAfford projected = true →
      response.toolCalls ≠ [] →
      ToolSteps svc settings step response.toolCalls
        (told (planned settings tools step (counted tools s (.ok projected)) (.ok response))
          (callTurn response)) (.ok ()) s' →
      PlanStep tools step s (.ok none) s'
  | callFailed {projected response s' e} : s.budget.canAfford projected = true →
      response.toolCalls ≠ [] →
      ToolSteps svc settings step response.toolCalls
        (told (planned settings tools step (counted tools s (.ok projected)) (.ok response))
          (callTurn response)) (.error e) s' →
      PlanStep tools step s (.error e) s'

inductive PlanLoop (tools : List (ToolSpec F)) :
    ℕ → ℕ → Run F → Except Exn (Text × StopReason × ℕ) → Run F → Prop
  | capped {step s} (final : LLMResponse F) :
      PlanLoop tools 0 step s (.ok (final.text, .stepCap, step)) (forced settings s (.ok final))
  | cappedFailed {step s} (e) : PlanLoop tools 0 step s (.error e) (forced settings s (.error e))
  | failed {left step s e s'} : PlanStep svc settings tools step s (.error e) s' →
      PlanLoop tools (left + 1) step s (.error e) s'
  | stopped {left step s text reason s'} :
      PlanStep svc settings tools step s (.ok (some (text, reason))) s' →
      PlanLoop tools (left + 1) step s (.ok (text, reason, step)) s'
  | continued {left step s s' r s''} : PlanStep svc settings tools step s (.ok none) s' →
      PlanLoop tools left (step + 1) s' r s'' → PlanLoop tools (left + 1) step s r s''

def entered (question : Text) (topK : ℤ) (filters : Option SearchFilters) (s : Run F)
    (chunks : List (RetrievedChunk F)) : Run F :=
  { logged s [.emit .seeding, .retrieve question topK filters (.ok chunks)] with
    registry := (s.registry.add chunks).1 }

inductive Seeded (question : Text) (topK : ℤ) (filters : Option SearchFilters) (s : Run F) :
    Except Exn (List (ToolSpec F)) → Run F → Prop
  | retrieveFailed (e) : Seeded question topK filters s (.error e)
      (logged s [.emit .seeding, .retrieve question topK filters (.error e)])
  | listFailed (chunks e) : Seeded question topK filters s (.error e)
      (logged (entered question topK filters s chunks) [.listTools (.error e)])
  | ready (chunks tools) : Seeded question topK filters s (.ok tools)
      (told
        (logged (entered question topK filters s chunks)
          [.listTools (.ok tools), .render (s.registry.add chunks).1.entries])
        (.user (buildAgentPrompt question (s.registry.add chunks).1)))

/-- The events that close a run. -/
def closing (s : Run F) (cleaned : Text) (used : List ℕ) (stopReason : StopReason) (step : ℕ) :
    List (AgentEvent F) :=
  (cleaned.toChunks tokenChunk).map .token ++
    [.sources (sourcesFor s.registry used), .trace s.trace,
     .done
      { usedIndices := used
        usage := s.usage
        costUsd := Core.costUsd s.model s.usage.inputTokens s.usage.outputTokens
        model := s.model
        steps := step
        stopReason }]

inductive Delivered (finalText : Text) (stopReason : StopReason) (step : ℕ) (s : Run F) :
    Except Exn Unit → Run F → Prop
  | unreadable {e} : validateAndStrip finalText s.registry = .error e →
      Delivered finalText stopReason step s (.error e) s
  | delivered {cleaned used} : validateAndStrip finalText s.registry = .ok (cleaned, used) →
      Delivered finalText stopReason step s (.ok ())
        (logged s ((closing s cleaned used stopReason step).map .emit))

inductive Finished (question : Text) (topK : ℤ) (filters : Option SearchFilters) :
    Except Exn Unit → Run F → Prop
  | seedFailed {e s} : Seeded question topK filters (start svc settings) (.error e) s →
      Finished question topK filters (.error e) s
  | loopFailed {tools s e s'} : Seeded question topK filters (start svc settings) (.ok tools) s →
      PlanLoop svc settings tools settings.maxAgentSteps 0 s (.error e) s' →
      Finished question topK filters (.error e) s'
  | finished {tools s text reason step s' r s''} :
      Seeded question topK filters (start svc settings) (.ok tools) s →
      PlanLoop svc settings tools settings.maxAgentSteps 0 s (.ok (text, reason, step)) s' →
      Delivered text reason step s' r s'' →
      Finished question topK filters r s''

/-! ### Specifications -/

section Primitives

variable {α : Type} {E : Exn → Run F → Prop} {s : Run F}

@[simp] theorem wp_act {Q : Unit → Run F → Prop} (a : Action F) :
    wp (act a) Q E s ↔ Q () (logged s [a]) := Iff.rfl

@[simp] theorem wp_emit {Q : Unit → Run F → Prop} (event : AgentEvent F) :
    wp (emit event) Q E s ↔ Q () (logged s [.emit event]) := Iff.rfl

@[simp] theorem wp_send {Q : Unit → Run F → Prop} (message : LLMMessage F) :
    wp (send message) Q E s ↔ Q () (told s message) := Iff.rfl

@[simp] theorem wp_addTrace {Q : Unit → Run F → Prop} (step : TraceStep F) :
    wp (addTrace step) Q E s ↔ Q () { s with trace := s.trace ++ [step] } := Iff.rfl

@[simp] theorem wp_attempt {Q : Except Exn α → Run F → Prop}
    (answer : List (Action F) → Except Exn α) (record : Except Exn α → Action F) :
    wp (attempt answer record) Q E s ↔
      Q (answer s.log) (logged s [record (answer s.log)]) := Iff.rfl

theorem wp_ofExcept {Q : α → Run F → Prop} {r : Except Exn α} (hok : ∀ a, r = .ok a → Q a s)
    (herror : ∀ e, r = .error e → E e s) : wp (ofExcept r) Q E s := by
  cases r with
  | ok a => exact hok a rfl
  | error e => exact herror e rfl

theorem wp_await {Q : α → Run F → Prop} {answer : List (Action F) → Except Exn α}
    {record : Except Exn α → Action F} (hok : ∀ a, Q a (logged s [record (.ok a)]))
    (herror : ∀ e, E e (logged s [record (.error e)])) : wp (await answer record) Q E s := by
  rw [await, wp_bind, wp_attempt]
  refine wp_ofExcept (fun a ha => ?_) fun e he => ?_
  · rw [ha]
    exact hok a
  · rw [he]
    exact herror e

theorem logged_logged (a b : List (Action F)) : logged (logged s a) b = logged s (a ++ b) := by
  simp [logged]

end Primitives

/-- The result and the state of a program, as one outcome. -/
def Outcome {α : Type} (P : Except Exn α → Run F → Prop) (p : AgentM F α) (s : Run F) : Prop :=
  wp p (fun a s' => P (.ok a) s') (fun e s' => P (.error e) s') s

theorem complete_spec (tools : Option (List (ToolSpec F))) (s : Run F) :
    Outcome (fun r s' => s' = completed settings tools s r) (complete svc settings tools) s := by
  simp only [Outcome, complete, wp_bind, wp_get]
  refine wp_await (fun response => ?_) fun e => rfl
  rw [wp_modify, wp_pure]
  rfl

theorem finalCompletion_spec (s : Run F) :
    Outcome (fun r s' => s' = forced settings s r) (finalCompletion svc settings) s := by
  rw [Outcome, finalCompletion, wp_bind, wp_send]
  exact complete_spec svc settings none _

theorem callWithRetries_spec (tc : ToolCall F) (began : ℚ) (left : ℕ) (s : Run F) :
    wp (callWithRetries svc settings tc began left)
      (fun r s' => ∃ calls, Attempts settings tc left calls (.ok r.1) ∧ s' = logged s calls)
      (fun e s' => ∃ calls, Attempts settings tc left calls (.error e) ∧ s' = logged s calls)
      s := by
  induction left generalizing s with
  | zero =>
    rw [callWithRetries, wp_bind, wp_attempt, wp_bind, wp_get]
    cases hr : svc.call s.log tc.name tc.arguments settings.toolTimeoutSeconds with
    | ok outcome => exact ⟨_, .returned outcome, rfl⟩
    | error e =>
      cases e with
      | toolError message => exact ⟨_, .gaveUp message, rfl⟩
      | _ => exact ⟨_, .raised (by simp), rfl⟩
  | succ left ih =>
    rw [callWithRetries, wp_bind, wp_attempt, wp_bind, wp_get]
    cases hr : svc.call s.log tc.name tc.arguments settings.toolTimeoutSeconds with
    | ok outcome => exact ⟨_, .returned outcome, rfl⟩
    | error e =>
      cases e with
      | toolError message =>
        refine wp_mono (ih _) ?_ ?_
        · rintro r s' ⟨calls, hcalls, rfl⟩
          exact ⟨_, .retried message hcalls, by rw [logged_logged, List.singleton_append]⟩
        · rintro e s' ⟨calls, hcalls, rfl⟩
          exact ⟨_, .retried message hcalls, by rw [logged_logged, List.singleton_append]⟩
      | _ => exact ⟨_, .raised (by simp), rfl⟩

theorem registerAndFormat_spec (outcome : ToolOutcome F) (s : Run F) :
    wp (registerAndFormat svc outcome)
      (fun content s' => ∃ registry shown, Shown svc s.registry outcome content registry shown ∧
        s' = { logged s shown with registry := registry })
      (fun e s' => extractChunkRecords svc.py outcome = .error e ∧ s' = s) s := by
  rw [registerAndFormat, wp_bind]
  refine wp_ofExcept (fun chunks hchunks => ?_) fun e he => ⟨he, rfl⟩
  cases chunks with
  | nil => exact ⟨s.registry, [], .plain hchunks, by simp [logged]⟩
  | cons chunk chunks => exact ⟨_, _, .records hchunks (by simp) rfl, rfl⟩

theorem runTool_spec (step : ℕ) (tc : ToolCall F) (s : Run F) :
    Outcome (ToolStep svc settings step tc s) (runTool svc settings step tc) s := by
  simp only [Outcome, runTool, wp_bind, wp_emit, wp_get, wp_modify]
  by_cases hseen : cycleKey svc.py tc.name tc.arguments ∈ s.cycles.seen
  · have hrepeat : (logged s [.emit (.toolCall tc.name tc.arguments)]).cycles.isRepeat svc.py
        tc.name tc.arguments = (true, s.cycles) := by
      simp [CycleDetector.isRepeat, CycleDetector.see, logged, hseen]
    simp only [hrepeat, if_true, wp_bind, wp_addTrace, wp_send, wp_emit]
    have h : ToolStep svc settings step tc s _ _ := .blocked hseen
    simpa [told, logged] using h
  · have hrepeat : (logged s [.emit (.toolCall tc.name tc.arguments)]).cycles.isRepeat svc.py
        tc.name tc.arguments = (false, (marked svc tc s).cycles) := by
      simp [CycleDetector.isRepeat, CycleDetector.see, logged, marked, hseen]
    rw [hrepeat, if_neg (by simp), wp_bind, wp_get, wp_bind]
    refine wp_mono (callWithRetries_spec svc settings tc _ _ _) ?_ ?_
    · rintro ⟨outcome, latency⟩ _ ⟨calls, hcalls, rfl⟩
      rw [wp_bind]
      refine wp_mono (registerAndFormat_spec svc outcome _) ?_ ?_
      · rintro content _ ⟨registry, shown, hshown, rfl⟩
        simp only [wp_bind, wp_addTrace, wp_send, wp_emit]
        have h : ToolStep svc settings step tc s _ _ := .answered latency hseen hcalls hshown
        simpa [told, logged, marked] using h
      · rintro e _ ⟨he, rfl⟩
        have h : ToolStep svc settings step tc s _ _ := .unreadable hseen hcalls he
        simpa [logged, marked] using h
    · rintro e _ ⟨calls, hcalls, rfl⟩
      have h : ToolStep svc settings step tc s _ _ := .raised hseen hcalls
      simpa [logged, marked] using h

theorem runTools_spec (step : ℕ) (tcs : List (ToolCall F)) (s : Run F) :
    Outcome (ToolSteps svc settings step tcs s) (forM tcs (runTool svc settings step)) s := by
  induction tcs generalizing s with
  | nil => exact .nil
  | cons tc tcs ih =>
    rw [Outcome, List.forM_cons, wp_bind]
    refine wp_mono (runTool_spec svc settings step tc s) (fun _ s' hs' => ?_) fun e s' he => ?_
    · exact wp_mono (ih s') (fun _ _ h => .cons hs' h) fun _ _ h => .cons hs' h
    · exact .stop he

theorem planStep_spec (tools : List (ToolSpec F)) (step : ℕ) (s : Run F) :
    Outcome (PlanStep svc settings tools step s) (planStep svc settings tools step) s := by
  rw [Outcome, planStep, wp_bind, count, wp_bind, wp_get]
  refine wp_await (fun projected => ?_) fun e => .countFailed e
  rw [wp_bind, wp_get]
  cases hafford : s.budget.canAfford projected with
  | false =>
    have hcheck : (!(logged s [.countTokens ⟨agentSystem, s.messages, some tools, none⟩
        (.ok projected)]).budget.canAfford projected) = true := by
      simp [logged, hafford]
    rw [if_pos hcheck, wp_bind]
    refine wp_mono (finalCompletion_spec svc settings _) ?_ ?_
    · rintro final _ rfl
      exact .overBudget final hafford
    · rintro e _ rfl
      exact .overBudgetFailed e hafford
  | true =>
    have hcheck : ¬ (!(logged s [.countTokens ⟨agentSystem, s.messages, some tools, none⟩
        (.ok projected)]).budget.canAfford projected) = true := by
      simp [logged, hafford]
    rw [if_neg hcheck, wp_bind, wp_emit, wp_bind]
    refine wp_mono (complete_spec svc settings (some tools) _) ?_ ?_
    · rintro response _ rfl
      rw [wp_bind, wp_modify]
      cases hcalls : response.toolCalls with
      | nil => exact .answered hafford hcalls
      | cons tc tcs =>
        have hne : response.toolCalls ≠ [] := by simp [hcalls]
        rw [if_neg (by simp), wp_bind, wp_send, wp_bind, ← hcalls]
        refine wp_mono (runTools_spec svc settings step response.toolCalls _) ?_ ?_
        · exact fun _ _ h => .called hafford hne h
        · exact fun _ _ h => .callFailed hafford hne h
    · rintro e _ rfl
      exact .planFailed e hafford

theorem planLoop_spec (tools : List (ToolSpec F)) (left step : ℕ) (s : Run F) :
    Outcome (PlanLoop svc settings tools left step s)
      (planLoop svc settings tools left step) s := by
  induction left generalizing step s with
  | zero =>
    rw [Outcome, planLoop, wp_bind]
    refine wp_mono (finalCompletion_spec svc settings s) ?_ ?_
    · rintro final _ rfl
      exact .capped final
    · rintro e _ rfl
      exact .cappedFailed e
  | succ left ih =>
    rw [Outcome, planLoop, wp_bind]
    refine wp_mono (planStep_spec svc settings tools step s) ?_ fun _ _ h => .failed h
    rintro (_ | ⟨text, reason⟩) s' h
    · exact wp_mono (ih (step + 1) s') (fun _ _ hl => .continued h hl) fun _ _ hl =>
        .continued h hl
    · exact .stopped h

theorem seed_spec (question : Text) (topK : Option ℤ) (filters : Option SearchFilters)
    (s : Run F) :
    Outcome (Seeded question (effectiveTopK settings topK) filters s)
      (seed svc settings question topK filters) s := by
  rw [Outcome, seed, wp_bind, wp_emit, wp_bind]
  refine wp_await (fun chunks => ?_) fun e => ?_
  · rw [wp_bind, wp_modify, wp_bind]
    refine wp_await (fun tools => ?_) fun e => ?_
    · simp only [wp_bind, wp_get, wp_act, wp_send, wp_pure]
      have h : Seeded question (effectiveTopK settings topK) filters s _ _ := .ready chunks tools
      simpa [told, logged, entered] using h
    · have h : Seeded question (effectiveTopK settings topK) filters s _ _ := .listFailed chunks e
      simpa [logged, entered] using h
  · have h : Seeded question (effectiveTopK settings topK) filters s _ _ := .retrieveFailed e
    simpa [logged] using h

theorem emitTokens_spec (texts : List Text) (s : Run F) :
    Outcome (fun r s' => r = .ok ⟨⟩ ∧ s' = logged s (texts.map fun t => .emit (.token t)))
      (forM texts fun text => emit (.token text)) s := by
  have h := wp_forM (E := fun _ _ => False) (f := fun text => emit (F := F) (.token text))
    (l := texts) (s := s) (fun done s' => s' = logged s (done.map fun t => .emit (.token t)))
    (by
      rintro done t todo _ - rfl
      rw [wp_emit, logged_logged, List.map_append]
      rfl)
    (by simp [logged])
  exact wp_mono h (fun _ _ hs => ⟨rfl, hs⟩) fun _ _ hf => hf.elim

theorem deliver_spec (finalText : Text) (stopReason : StopReason) (step : ℕ) (s : Run F) :
    Outcome (Delivered finalText stopReason step s) (deliver finalText stopReason step) s := by
  rw [Outcome, deliver, wp_bind, wp_get, wp_bind]
  refine wp_ofExcept (fun r hr => ?_) fun e he => .unreadable he
  obtain ⟨cleaned, used⟩ := r
  rw [wp_bind]
  refine wp_mono (emitTokens_spec _ s) ?_ fun e _ h => nomatch h.1
  rintro - _ ⟨-, rfl⟩
  simp only [wp_bind, wp_emit]
  have h : Delivered finalText stopReason step s _ _ := .delivered hr
  simpa [logged, closing, Function.comp_def] using h

/-- A run of the orchestrator: its result and the state it ends in. -/
def run (question : Text) (topK : Option ℤ) (filters : Option SearchFilters) :
    Except Exn Unit × Run F :=
  match events svc settings question topK filters (start svc settings) with
  | .ok _ s => (.ok (), s)
  | .error e s => (.error e, s)

/-- Every run is one of the runs the relations describe. -/
theorem run_finished (question : Text) (topK : Option ℤ) (filters : Option SearchFilters) :
    Finished svc settings question (effectiveTopK settings topK) filters
      (run svc settings question topK filters).1 (run svc settings question topK filters).2 := by
  have h : Outcome (Finished svc settings question (effectiveTopK settings topK) filters)
      (events svc settings question topK filters) (start svc settings) := by
    rw [Outcome, events, wp_bind]
    refine wp_mono (seed_spec svc settings question topK filters _) ?_ fun _ _ h => .seedFailed h
    intro tools s hseed
    rw [wp_bind]
    refine wp_mono (planLoop_spec svc settings tools _ 0 s) ?_ fun _ _ h => .loopFailed hseed h
    rintro ⟨text, reason, step⟩ s' hloop
    exact wp_mono (deliver_spec text reason step s') (fun _ _ h => .finished hseed hloop h)
      fun _ _ h => .finished hseed hloop h
  rw [Outcome, wp_iff] at h
  unfold run
  split
  · next s hs => exact h.1 _ _ hs
  · next e s hs => exact h.2 _ _ hs

/-! ### Growth of the history -/

/-- The events of the loop, as opposed to those that close a run. -/
def LoopEvent : AgentEvent F → Prop
  | .seeding | .planning _ | .toolCall _ _ | .toolResult _ _ _ _ => True
  | _ => False

/-- The actions that can occur before the answer is delivered. -/
def LoopAction (a : Action F) : Prop := ∀ event, a = .emit event → LoopEvent event

/-- `s'` continues the history of `s` within the loop. -/
def Extends (s s' : Run F) : Prop := ∃ seg, s'.log = s.log ++ seg ∧ ∀ a ∈ seg, LoopAction a

variable {svc settings}

theorem Extends.refl (s : Run F) : Extends s s := ⟨[], (List.append_nil _).symm, nofun⟩

theorem Extends.trans {s s' s'' : Run F} (h : Extends s s') (h' : Extends s' s'') :
    Extends s s'' := by
  obtain ⟨a, ha, hla⟩ := h
  obtain ⟨b, hb, hlb⟩ := h'
  refine ⟨a ++ b, by rw [hb, ha, List.append_assoc], fun x hx => ?_⟩
  rcases List.mem_append.mp hx with hx | hx
  · exact hla x hx
  · exact hlb x hx

theorem Extends.isPrefix {s s' : Run F} (h : Extends s s') : s.log <+: s'.log := by
  obtain ⟨seg, hseg, -⟩ := h
  exact ⟨seg, hseg.symm⟩

/-- The actions of a tool call: its attempts, its events and what is shown to the model. -/
def ToolAction : Action F → Prop
  | .call _ _ _ _ | .render _ => True
  | .emit event => LoopEvent event
  | _ => False

theorem ToolAction.loopAction {a : Action F} (h : ToolAction a) : LoopAction a := by
  rintro event rfl
  exact h

/-- Nothing is read off the actions of tool calls by a filter for other actions. -/
theorem filterMap_toolActions {β : Type} {f : Action F → Option β} {seg : List (Action F)}
    (hf : ∀ a, ToolAction a → f a = none) (h : ∀ a ∈ seg, ToolAction a) :
    seg.filterMap f = [] :=
  List.filterMap_eq_nil_iff.mpr fun a ha => hf a (h a ha)

theorem Attempts.toolActions {tc : ToolCall F} {left : ℕ} {calls : List (Action F)}
    {result : Except Exn (ToolOutcome F)} (h : Attempts settings tc left calls result) :
    ∀ a ∈ calls, ToolAction a := by
  induction h with
  | retried message _ ih =>
    intro a ha
    rcases List.mem_cons.mp ha with rfl | ha
    · exact trivial
    · exact ih a ha
  | _ => simp [ToolAction]

theorem Shown.toolActions {registry registry' : CitationRegistry} {outcome : ToolOutcome F}
    {content : Text} {shown : List (Action F)}
    (h : Shown svc registry outcome content registry' shown) : ∀ a ∈ shown, ToolAction a := by
  cases h <;> simp [ToolAction]

/-- A tool call touches neither the budget nor the usage, and its actions are tool actions. -/
structure ToolEffect (s s' : Run F) : Prop where
  log : ∃ seg, s'.log = s.log ++ seg ∧ ∀ a ∈ seg, ToolAction a
  budget : s'.budget = s.budget
  usage : s'.usage = s.usage
  model : s'.model = s.model

theorem ToolEffect.extends {s s' : Run F} (h : ToolEffect s s') : Extends s s' := by
  obtain ⟨seg, hseg, hactions⟩ := h.log
  exact ⟨seg, hseg, fun a ha => (hactions a ha).loopAction⟩

theorem ToolEffect.trans {s s' s'' : Run F} (h : ToolEffect s s') (h' : ToolEffect s' s'') :
    ToolEffect s s'' := by
  obtain ⟨a, ha, hta⟩ := h.log
  obtain ⟨b, hb, htb⟩ := h'.log
  refine ⟨⟨a ++ b, by rw [hb, ha, List.append_assoc], fun x hx => ?_⟩, h'.budget.trans h.budget,
    h'.usage.trans h.usage, h'.model.trans h.model⟩
  rcases List.mem_append.mp hx with hx | hx
  · exact hta x hx
  · exact htb x hx

theorem ToolStep.effect {step : ℕ} {tc : ToolCall F} {s s' : Run F} {r : Except Exn Unit}
    (h : ToolStep svc settings step tc s r s') : ToolEffect s s' := by
  have hcall : ∀ {calls : List (Action F)}, (∀ a ∈ calls, ToolAction a) →
      ∀ a ∈ Action.emit (.toolCall tc.name tc.arguments) :: calls, ToolAction a := by
    intro calls hcalls a ha
    rcases List.mem_cons.mp ha with rfl | ha
    · exact trivial
    · exact hcalls a ha
  cases h with
  | blocked _ => exact ⟨⟨_, rfl, by simp [ToolAction, LoopEvent]⟩, rfl, rfl, rfl⟩
  | answered _ _ hcalls hshown =>
    refine ⟨⟨_, rfl, fun a ha => ?_⟩, rfl, rfl, rfl⟩
    rcases List.mem_append.mp ha with ha | ha
    · rcases List.mem_append.mp ha with ha | ha
      · exact hcall hcalls.toolActions a ha
      · exact hshown.toolActions a ha
    · obtain rfl := List.mem_singleton.mp ha
      exact trivial
  | raised _ hcalls => exact ⟨⟨_, rfl, hcall hcalls.toolActions⟩, rfl, rfl, rfl⟩
  | unreadable _ hcalls _ => exact ⟨⟨_, rfl, hcall hcalls.toolActions⟩, rfl, rfl, rfl⟩

theorem ToolSteps.effect {step : ℕ} {tcs : List (ToolCall F)} {s s' : Run F}
    {r : Except Exn Unit} (h : ToolSteps svc settings step tcs s r s') : ToolEffect s s' := by
  induction h with
  | nil => exact ⟨⟨[], by simp, by simp⟩, rfl, rfl, rfl⟩
  | cons hstep _ ih => exact hstep.effect.trans ih
  | stop hstep => exact hstep.effect

/-- What a filter reads off the history is the same before and after tool calls. -/
theorem ToolSteps.filterMap {β : Type} {step : ℕ} {tcs : List (ToolCall F)} {s s' : Run F}
    {r : Except Exn Unit} {f : Action F → Option β} (h : ToolSteps svc settings step tcs s r s')
    (hf : ∀ a, ToolAction a → f a = none) : s'.log.filterMap f = s.log.filterMap f := by
  obtain ⟨seg, hseg, hactions⟩ := h.effect.log
  rw [hseg, List.filterMap_append, filterMap_toolActions hf hactions, List.append_nil]

theorem extends_counted (tools : List (ToolSpec F)) (s : Run F) (result : Except Exn ℤ) :
    Extends s (counted tools s result) := ⟨_, rfl, by simp [LoopAction]⟩

theorem extends_completed (tools : Option (List (ToolSpec F))) (s : Run F)
    (result : Except Exn (LLMResponse F)) : Extends s (completed settings tools s result) := by
  cases result <;> exact ⟨_, rfl, by simp [LoopAction]⟩

theorem extends_forced (s : Run F) (result : Except Exn (LLMResponse F)) :
    Extends s (forced settings s result) := by
  cases result <;> exact ⟨_, rfl, by simp [LoopAction]⟩

theorem extends_planned (tools : List (ToolSpec F)) (step : ℕ) (s : Run F)
    (result : Except Exn (LLMResponse F)) : Extends s (planned settings tools step s result) := by
  have hemit : Extends s (logged s [.emit (.planning step)]) :=
    ⟨_, rfl, by simp [LoopAction, LoopEvent]⟩
  have h : Extends s (completed settings (some tools) _ result) :=
    hemit.trans (extends_completed (some tools) _ result)
  cases result with
  | ok response => exact h
  | error e => exact h

/-- Step rule: what the parts of a step keep holds after it. -/
theorem PlanStep.invariant {I : Run F → Prop} {tools : List (ToolSpec F)} {step : ℕ}
    (hcounted : ∀ s result, I s → I (counted tools s result))
    (hforced : ∀ s result, I s → I (forced settings s result))
    (hplanned : ∀ s result, I s → I (planned settings tools step s result))
    (htools : ∀ s response r s', ToolSteps svc settings step response.toolCalls
      (told s (callTurn response)) r s' → I s → I s') {s s' : Run F}
    {r : Except Exn (Option (Text × StopReason))} (h : PlanStep svc settings tools step s r s')
    (hs : I s) : I s' := by
  cases h with
  | countFailed e => exact hcounted _ _ hs
  | overBudget final _ => exact hforced _ _ (hcounted _ _ hs)
  | overBudgetFailed e _ => exact hforced _ _ (hcounted _ _ hs)
  | planFailed e _ => exact hplanned _ _ (hcounted _ _ hs)
  | answered _ _ => exact hplanned _ _ (hcounted _ _ hs)
  | called _ _ hcalled => exact htools _ _ _ _ hcalled (hplanned _ _ (hcounted _ _ hs))
  | callFailed _ _ hcalled => exact htools _ _ _ _ hcalled (hplanned _ _ (hcounted _ _ hs))

theorem PlanStep.extends {tools : List (ToolSpec F)} {step : ℕ} {s s' : Run F}
    {r : Except Exn (Option (Text × StopReason))} (h : PlanStep svc settings tools step s r s') :
    Extends s s' := by
  apply PlanStep.invariant (I := Extends s) _ _ _ _ h (.refl s)
  · intro s₁ result hs
    exact hs.trans (extends_counted tools s₁ result)
  · intro s₁ result hs
    exact hs.trans (extends_forced s₁ result)
  · intro s₁ result hs
    exact hs.trans (extends_planned tools step s₁ result)
  · intro s₁ response r s₂ hcalled hs
    exact hs.trans hcalled.effect.extends

/-- Loop rule: what the steps of the loop and the forced answer keep holds when it ends. -/
theorem PlanLoop.invariant {I : Run F → Prop} {tools : List (ToolSpec F)}
    (hstep : ∀ {step s s' r}, PlanStep svc settings tools step s r s' → I s → I s')
    (hforced : ∀ s result, I s → I (forced settings s result)) {left step : ℕ} {s s' : Run F}
    {r : Except Exn (Text × StopReason × ℕ)} (h : PlanLoop svc settings tools left step s r s')
    (hs : I s) : I s' := by
  induction h with
  | capped final => exact hforced _ _ hs
  | cappedFailed e => exact hforced _ _ hs
  | failed hfailed => exact hstep hfailed hs
  | stopped hstopped => exact hstep hstopped hs
  | continued hcontinued _ ih => exact ih (hstep hcontinued hs)

theorem PlanLoop.extends {tools : List (ToolSpec F)} {left step : ℕ} {s s' : Run F}
    {r : Except Exn (Text × StopReason × ℕ)}
    (h : PlanLoop svc settings tools left step s r s') : Extends s s' := by
  apply PlanLoop.invariant (I := Extends s) _ _ h (.refl s)
  · intro step s₁ s₂ r hstep hs
    exact hs.trans hstep.extends
  · intro s₁ result hs
    exact hs.trans (extends_forced s₁ result)

theorem Seeded.inLoop {question : Text} {topK : ℤ} {filters : Option SearchFilters}
    {r : Except Exn (List (ToolSpec F))} {s : Run F}
    (h : Seeded question topK filters (start svc settings) r s) : ∀ a ∈ s.log, LoopAction a := by
  cases h <;> simp [LoopAction, LoopEvent, logged, told, entered, start]

/-- No closing event is emitted before the answer is delivered. -/
theorem PlanLoop.inLoop {question : Text} {topK : ℤ} {filters : Option SearchFilters}
    {tools : List (ToolSpec F)} {left step : ℕ} {s s' : Run F}
    {r : Except Exn (Text × StopReason × ℕ)}
    (hseed : Seeded question topK filters (start svc settings) (.ok tools) s)
    (h : PlanLoop svc settings tools left step s r s') : ∀ a ∈ s'.log, LoopAction a := by
  obtain ⟨seg, hseg, hactions⟩ := h.extends
  intro a ha
  rw [hseg] at ha
  rcases List.mem_append.mp ha with ha | ha
  · exact hseed.inLoop a ha
  · exact hactions a ha

/-- The closing events of a run are those of its delivery. -/
theorem mem_closing {s : Run F} {cleaned : Text} {used : List ℕ} {reason : StopReason} {step : ℕ}
    {event : AgentEvent F} (h : ∀ a ∈ s.log, LoopAction a) (hevent : ¬ LoopEvent event)
    (hmem : .emit event ∈ (logged s ((closing s cleaned used reason step).map .emit)).log) :
    event ∈ closing s cleaned used reason step := by
  rcases List.mem_append.mp hmem with hm | hm
  · exact absurd (h _ hm _ rfl) hevent
  · obtain ⟨event', hm, heq⟩ := List.mem_map.mp hm
    cases heq
    exact hm

theorem done_mem_closing {s : Run F} {cleaned : Text} {used : List ℕ} {reason : StopReason}
    {step : ℕ} {data : Done} :
    .done data ∈ closing s cleaned used reason step ↔
      data = ⟨used, s.usage, Core.costUsd s.model s.usage.inputTokens s.usage.outputTokens, s.model,
        step, reason⟩ := by
  simp [closing]

theorem sources_mem_closing {s : Run F} {cleaned : Text} {used : List ℕ} {reason : StopReason}
    {step : ℕ} {sources : List Source} :
    .sources sources ∈ closing s cleaned used reason step ↔
      sources = sourcesFor s.registry used := by
  simp [closing]

end GroundedOps.Agent.Orchestrator
