import GroundedOps.Agent.OrchestratorRuns

/-!
# What the guardrails bound

The planning loop keeps two invariants: one ties the calls made so far to the
cycle detector, the other ties the completions made so far to the step counter,
the token budget and the reported usage.
-/

namespace GroundedOps.Agent.Orchestrator

open Python Llm Retrieval

variable {F : Type} {svc : Services F} {settings : Settings}

/-! ### Completions and calls of a history -/

/-- A completion: its request and its result. -/
@[simp] def completionOf : Action F → Option (Request F × Except Exn (LLMResponse F))
  | .complete request result => some (request, result)
  | _ => none

def completions (log : List (Action F)) : List (Request F × Except Exn (LLMResponse F)) :=
  log.filterMap completionOf

@[simp] theorem completions_nil : completions ([] : List (Action F)) = [] := rfl

@[simp] theorem completions_append (a b : List (Action F)) :
    completions (a ++ b) = completions a ++ completions b := List.filterMap_append

@[simp] theorem completions_cons (a : Action F) (log : List (Action F)) :
    completions (a :: log) = (completionOf a).toList ++ completions log := by
  rw [completions, List.filterMap_cons]
  cases completionOf a <;> rfl

/-- A completion with tools, as opposed to the forced final one. -/
def WithTools (c : Request F × Except Exn (LLMResponse F)) : Bool := c.1.tools.isSome

def usageOf (c : Request F × Except Exn (LLMResponse F)) : LLMUsage :=
  match c.2 with
  | .ok response => response.usage
  | .error _ => 0

/-- An attempt at a tool call: tool, arguments and result. -/
@[simp] def callOf : Action F → Option ((Text × Json F) × Except Exn (ToolOutcome F))
  | .call tool arguments _ result => some ((tool, arguments), result)
  | _ => none

def toolCalls (log : List (Action F)) : List ((Text × Json F) × Except Exn (ToolOutcome F)) :=
  log.filterMap callOf

@[simp] theorem toolCalls_nil : toolCalls ([] : List (Action F)) = [] := rfl

@[simp] theorem toolCalls_append (a b : List (Action F)) :
    toolCalls (a ++ b) = toolCalls a ++ toolCalls b := List.filterMap_append

@[simp] theorem toolCalls_cons (a : Action F) (log : List (Action F)) :
    toolCalls (a :: log) = (callOf a).toList ++ toolCalls log := by
  rw [toolCalls, List.filterMap_cons]
  cases callOf a <;> rfl

/-! ### Calls -/

/-- One logical call with the results of its attempts. -/
structure CallBlock (F : Type) where
  call : Text × Json F
  results : List (Except Exn (ToolOutcome F))

def CallBlock.attempts (b : CallBlock F) : List ((Text × Json F) × Except Exn (ToolOutcome F)) :=
  b.results.map fun r => (b.call, r)

/-- At least one attempt, at most one more than the retries, and only tool errors are retried. -/
structure CallBlock.Retried (settings : Settings) (b : CallBlock F) : Prop where
  attempted : b.results ≠ []
  bounded : b.results.length ≤ settings.maxToolRetries + 1
  failed : ∀ r ∈ b.results.dropLast, ∃ message, r = .error (.toolError message)

theorem Attempts.block {tc : ToolCall F} {left : ℕ} {calls : List (Action F)}
    {result : Except Exn (ToolOutcome F)} (h : Attempts settings tc left calls result) :
    ∃ results, toolCalls calls = results.map (fun r => ((tc.name, tc.arguments), r)) ∧
      results ≠ [] ∧ results.length ≤ left + 1 ∧
      ∀ r ∈ results.dropLast, ∃ message, r = .error (.toolError message) := by
  induction h with
  | returned outcome => exact ⟨[.ok outcome], by simp⟩
  | gaveUp message => exact ⟨[.error (.toolError message)], by simp⟩
  | @raised _ e _ => exact ⟨[.error e], by simp⟩
  | retried message _ ih =>
    obtain ⟨results, hcalls, hne, hlen, hfailed⟩ := ih
    refine ⟨.error (.toolError message) :: results, by simp [hcalls], by simp, by simpa, ?_⟩
    rw [List.dropLast_cons_of_ne_nil hne]
    rintro r hr
    rcases List.mem_cons.mp hr with rfl | hr
    · exact ⟨message, rfl⟩
    · exact hfailed r hr

theorem Shown.toolCalls {registry registry' : CitationRegistry} {outcome : ToolOutcome F}
    {content : Text} {shown : List (Action F)}
    (h : Shown svc registry outcome content registry' shown) : toolCalls shown = [] := by
  cases h <;> rfl

def CallBlock.key (py : Interpreter F) (b : CallBlock F) : Text := cycleKey py b.call.1 b.call.2

/-- The calls made so far, grouped by logical call, are those the cycle detector has seen. -/
structure Tracked (svc : Services F) (settings : Settings) (s : Run F)
    (blocks : List (CallBlock F)) : Prop where
  calls : toolCalls s.log = blocks.flatMap CallBlock.attempts
  retried : ∀ b ∈ blocks, b.Retried settings
  distinct : (blocks.map (CallBlock.key svc.py)).Nodup
  seen : ∀ b ∈ blocks, b.key svc.py ∈ s.cycles.seen

/-- A call that was not seen before adds one block. -/
theorem Tracked.attempt {s s' : Run F} {blocks : List (CallBlock F)} {tc : ToolCall F}
    {calls : List (Action F)} {result : Except Exn (ToolOutcome F)}
    (h : Tracked svc settings s blocks)
    (hfresh : cycleKey svc.py tc.name tc.arguments ∉ s.cycles.seen)
    (hattempts : Attempts settings tc settings.maxToolRetries calls result)
    (hlog : toolCalls s'.log = toolCalls s.log ++ toolCalls calls)
    (hcycles : s'.cycles = (marked svc tc s).cycles) :
    ∃ blocks', Tracked svc settings s' blocks' := by
  obtain ⟨results, hcalls, hne, hlen, hfailed⟩ := hattempts.block
  let block : CallBlock F := ⟨(tc.name, tc.arguments), results⟩
  refine ⟨blocks ++ [block], ?_, ?_, ?_, ?_⟩
  · rw [hlog, hcalls, h.calls]
    simp [CallBlock.attempts, block]
  · intro b hb
    rcases List.mem_append.mp hb with hb | hb
    · exact h.retried b hb
    · obtain rfl := List.mem_singleton.mp hb
      exact ⟨hne, hlen, hfailed⟩
  · rw [List.map_append, List.nodup_append]
    refine ⟨h.distinct, by simp, ?_⟩
    rintro k hk _ hb rfl
    obtain ⟨b, hb', rfl⟩ := List.mem_map.mp hk
    have hkey : b.key svc.py = cycleKey svc.py tc.name tc.arguments := by
      simpa [CallBlock.key, block] using hb
    exact hfresh (hkey ▸ h.seen b hb')
  · intro b hb
    rw [hcycles]
    rcases List.mem_append.mp hb with hb | hb
    · exact List.mem_cons_of_mem _ (h.seen b hb)
    · obtain rfl := List.mem_singleton.mp hb
      exact List.mem_cons_self

theorem ToolStep.tracked {step : ℕ} {tc : ToolCall F} {s s' : Run F} {r : Except Exn Unit}
    {blocks : List (CallBlock F)} (h : ToolStep svc settings step tc s r s')
    (hs : Tracked svc settings s blocks) : ∃ blocks', Tracked svc settings s' blocks' := by
  cases h with
  | blocked _ => exact ⟨blocks, by simpa using hs.calls, hs.retried, hs.distinct, hs.seen⟩
  | answered _ hfresh hcalls hshown =>
    exact hs.attempt hfresh hcalls (by simp [hshown.toolCalls]) rfl
  | raised hfresh hcalls => exact hs.attempt hfresh hcalls (by simp [logged, marked]) rfl
  | unreadable hfresh hcalls _ => exact hs.attempt hfresh hcalls (by simp [logged, marked]) rfl

theorem ToolSteps.tracked {step : ℕ} {tcs : List (ToolCall F)} {s s' : Run F}
    {r : Except Exn Unit} (h : ToolSteps svc settings step tcs s r s') :
    (∃ blocks, Tracked svc settings s blocks) → ∃ blocks, Tracked svc settings s' blocks := by
  induction h with
  | nil => exact id
  | cons hstep _ ih => exact fun ⟨_, hs⟩ => ih (hstep.tracked hs)
  | stop hstep => exact fun ⟨_, hs⟩ => hstep.tracked hs

/-- Only tool calls concern the tracking. -/
theorem Tracked.of_eq {s s' : Run F} {blocks : List (CallBlock F)}
    (h : Tracked svc settings s blocks) (hlog : toolCalls s'.log = toolCalls s.log)
    (hcycles : s'.cycles = s.cycles) : Tracked svc settings s' blocks :=
  ⟨hlog.trans h.calls, h.retried, h.distinct, hcycles ▸ h.seen⟩

theorem toolCalls_counted (tools : List (ToolSpec F)) (s : Run F) (result : Except Exn ℤ) :
    toolCalls (counted tools s result).log = toolCalls s.log ∧
      (counted tools s result).cycles = s.cycles := by
  simp [counted, logged]

theorem toolCalls_completed (tools : Option (List (ToolSpec F))) (s : Run F)
    (result : Except Exn (LLMResponse F)) :
    toolCalls (completed settings tools s result).log = toolCalls s.log ∧
      (completed settings tools s result).cycles = s.cycles := by
  cases result <;> simp [completed, logged]

theorem toolCalls_planned (tools : List (ToolSpec F)) (step : ℕ) (s : Run F)
    (result : Except Exn (LLMResponse F)) :
    toolCalls (planned settings tools step s result).log = toolCalls s.log ∧
      (planned settings tools step s result).cycles = s.cycles := by
  cases result <;> simp [planned, completed, logged]

theorem Tracked.forced {s : Run F} {blocks : List (CallBlock F)}
    (h : Tracked svc settings s blocks) (result : Except Exn (LLMResponse F)) :
    Tracked svc settings (forced settings s result) blocks :=
  h.of_eq (toolCalls_completed none _ result).1 (toolCalls_completed none _ result).2

theorem PlanStep.tracked {tools : List (ToolSpec F)} {step : ℕ} {s s' : Run F}
    {r : Except Exn (Option (Text × StopReason))} (h : PlanStep svc settings tools step s r s') :
    (∃ blocks, Tracked svc settings s blocks) → ∃ blocks, Tracked svc settings s' blocks := by
  apply PlanStep.invariant (I := fun s => ∃ blocks, Tracked svc settings s blocks) _ _ _ _ h
  · rintro s result ⟨blocks, hs⟩
    exact ⟨blocks, hs.of_eq (toolCalls_counted tools s result).1
      (toolCalls_counted tools s result).2⟩
  · rintro s result ⟨blocks, hs⟩
    exact ⟨blocks, hs.forced result⟩
  · rintro s result ⟨blocks, hs⟩
    exact ⟨blocks, hs.of_eq (toolCalls_planned tools step s result).1
      (toolCalls_planned tools step s result).2⟩
  · rintro s response r s' hcalled ⟨blocks, hs⟩
    exact hcalled.tracked ⟨blocks, hs.of_eq rfl rfl⟩

theorem PlanLoop.tracked {tools : List (ToolSpec F)} {left step : ℕ} {s s' : Run F}
    {r : Except Exn (Text × StopReason × ℕ)}
    (h : PlanLoop svc settings tools left step s r s') :
    (∃ blocks, Tracked svc settings s blocks) → ∃ blocks, Tracked svc settings s' blocks := by
  apply PlanLoop.invariant (I := fun s => ∃ blocks, Tracked svc settings s blocks) _ _ h
  · intro step s s' r hstep
    exact hstep.tracked
  · rintro s result ⟨blocks, hs⟩
    exact ⟨blocks, hs.forced result⟩

/-! ### Completions -/

theorem ToolSteps.completions {step : ℕ} {tcs : List (ToolCall F)} {s s' : Run F}
    {r : Except Exn Unit} (h : ToolSteps svc settings step tcs s r s') :
    completions s'.log = completions s.log :=
  h.filterMap fun a ha => by cases a <;> first | rfl | exact ha.elim

def totalUsage (log : List (Action F)) : LLMUsage := ((completions log).map usageOf).sum

/-- Tokens used by the planning completions of a history. -/
def plannedTotal (log : List (Action F)) : ℤ :=
  (((completions log).filter WithTools).map usageOf).sum.total

/-- Tokens used by the completions without tools. -/
def forcedTotal (log : List (Action F)) : ℤ :=
  (((completions log).filter fun c => !WithTools c).map usageOf).sum.total

/-- The state at the head of the loop: one completion with tools for every step. -/
structure Planning (settings : Settings) (step : ℕ) (s : Run F) : Prop where
  steps : (completions s.log).length = step
  withTools : ∀ c ∈ completions s.log, WithTools c = true
  limit : s.budget.limit = settings.perRequestTokenBudget
  reserve : s.budget.reserveOutput = settings.maxOutputTokens
  usage : s.usage = totalUsage s.log
  consumed : s.budget.consumed = s.usage.total

/-- The completions when the loop is left: at most `steps` with tools, then at most one
without, and none without if the loop was left by an answer. -/
structure Ended (settings : Settings) (steps : ℕ) (result : Except Exn (Text × StopReason × ℕ))
    (s : Run F) : Prop where
  split : ∃ planned final, completions s.log = planned ++ final ∧ planned.length ≤ steps ∧
    final.length ≤ 1 ∧ (∀ c ∈ planned, WithTools c = true) ∧ (∀ c ∈ final, WithTools c = false) ∧
    ∀ text reason step, result = .ok (text, reason, step) →
      (final ≠ [] ↔ reason = .stepCap ∨ reason = .tokenBudget)
  usage : ∀ value, result = .ok value → s.usage = totalUsage s.log

theorem completions_completed (tools : Option (List (ToolSpec F))) (s : Run F)
    (result : Except Exn (LLMResponse F)) :
    completions (completed settings tools s result).log = completions s.log ++
      [(⟨agentSystem, s.messages, tools, some settings.maxOutputTokens⟩, result)] := by
  cases result <;> simp [completed, logged]

theorem totalUsage_completed (tools : Option (List (ToolSpec F))) {s : Run F}
    (response : LLMResponse F) (h : s.usage = totalUsage s.log) :
    (completed settings tools s (.ok response)).usage =
      totalUsage (completed settings tools s (.ok response)).log := by
  rw [totalUsage, completions_completed, List.map_append, List.sum_append, ← totalUsage, ← h]
  simp [completed, usageOf]

theorem Planning.next {step : ℕ} {s : Run F} (h : Planning settings step s)
    (tools : List (ToolSpec F)) (projected : ℤ) (response : LLMResponse F) :
    Planning settings (step + 1)
      (planned settings tools step (counted tools s (.ok projected)) (.ok response)) := by
  have hcompletions : completions (planned settings tools step
      (counted tools s (.ok projected)) (.ok response)).log = completions s.log ++
      [(⟨agentSystem, s.messages, some tools, some settings.maxOutputTokens⟩, .ok response)] := by
    simp [planned, completed, counted, logged]
  refine ⟨by simp [hcompletions, h.steps], ?_, h.limit, h.reserve, ?_, ?_⟩
  · rw [hcompletions]
    intro c hc
    rcases List.mem_append.mp hc with hc | hc
    · exact h.withTools c hc
    · obtain rfl := List.mem_singleton.mp hc
      rfl
  · rw [totalUsage, hcompletions, List.map_append, List.sum_append, ← totalUsage, ← h.usage]
    simp [planned, completed, counted, logged, usageOf]
  · simp [planned, completed, counted, logged, h.consumed]

theorem Planning.of_effect {step : ℕ} {s s' : Run F} (h : Planning settings step s)
    (hcompletions : completions s'.log = completions s.log) (heffect : ToolEffect s s') :
    Planning settings step s' := by
  refine ⟨by rw [hcompletions, h.steps], hcompletions ▸ h.withTools, heffect.budget ▸ h.limit,
    heffect.budget ▸ h.reserve, ?_, ?_⟩
  · rw [heffect.usage, h.usage, totalUsage, totalUsage, hcompletions]
  · rw [heffect.budget, heffect.usage, h.consumed]

theorem Planning.told {step : ℕ} {s : Run F} (h : Planning settings step s)
    (message : LLMMessage F) : Planning settings step (told s message) :=
  ⟨h.steps, h.withTools, h.limit, h.reserve, h.usage, h.consumed⟩

theorem PlanStep.planning {tools : List (ToolSpec F)} {step : ℕ} {s s' : Run F}
    (h : PlanStep svc settings tools step s (.ok none) s') (hs : Planning settings step s) :
    Planning settings (step + 1) s' := by
  cases h with
  | @called projected response _ _ _ htools =>
    exact ((hs.next tools projected response).told _).of_effect htools.completions htools.effect

theorem Planning.endedForced {step steps : ℕ} {s : Run F} (h : Planning settings step s)
    (hle : step ≤ steps) (result : Except Exn (LLMResponse F))
    {r : Except Exn (Text × StopReason × ℕ)}
    (hr : ∀ text reason n, r = .ok (text, reason, n) →
      (reason = .stepCap ∨ reason = .tokenBudget) ∧ ∃ response, result = .ok response) :
    Ended settings steps r (forced settings s result) := by
  refine ⟨⟨completions s.log, _, completions_completed none _ result, by rw [h.steps]; exact hle,
    by simp, h.withTools, by simp [WithTools], ?_⟩, ?_⟩
  · intro text reason n hok
    simp [(hr text reason n hok).1]
  · rintro ⟨text, reason, n⟩ hok
    obtain ⟨-, response, rfl⟩ := hr text reason n hok
    exact totalUsage_completed none response h.usage

theorem Planning.failed {step steps : ℕ} {s : Run F} {e : Exn} (h : Planning settings step s)
    (hle : step ≤ steps) : Ended settings steps (.error e) s :=
  ⟨⟨completions s.log, [], by simp, by rw [h.steps]; exact hle, by simp, h.withTools, by simp,
    by simp⟩, by simp⟩

theorem Planning.afterCount {step : ℕ} {s : Run F} (h : Planning settings step s)
    (tools : List (ToolSpec F)) (result : Except Exn ℤ) :
    Planning settings step (counted tools s result) := by
  have hcompletions : completions (counted tools s result).log =
      completions s.log := by simp [counted, logged]
  exact ⟨by rw [hcompletions, h.steps], hcompletions ▸ h.withTools, h.limit, h.reserve,
    by rw [totalUsage, hcompletions]; exact h.usage, h.consumed⟩

/-- An answer without calls ends the loop with nothing forced. -/
theorem Planning.answered {step steps : ℕ} {s : Run F} (h : Planning settings (step + 1) s)
    (hle : step + 1 ≤ steps) (text : Text) :
    Ended settings steps (.ok (text, .answered, step)) s := by
  refine ⟨⟨completions s.log, [], by simp, by rw [h.steps]; exact hle, by simp, h.withTools,
    by simp, ?_⟩, fun _ _ => h.usage⟩
  rintro _ _ _ ⟨⟩
  simp

theorem Planning.planFailed {step steps : ℕ} {s : Run F} (h : Planning settings step s)
    (hle : step + 1 ≤ steps) (tools : List (ToolSpec F)) (e : Exn) :
    Ended settings steps (.error e) (planned settings tools step s (.error e)) := by
  have hcompletions : completions (planned settings tools step s (.error e)).log =
      completions s.log ++
        [(⟨agentSystem, s.messages, some tools, some settings.maxOutputTokens⟩, .error e)] := by
    simp [planned, completed, logged]
  refine ⟨⟨_, [], by rw [hcompletions, List.append_nil], by simp [h.steps, hle], by simp, ?_, by simp,
    by simp⟩, by simp⟩
  intro c hc
  rcases List.mem_append.mp hc with hc | hc
  · exact h.withTools c hc
  · obtain rfl := List.mem_singleton.mp hc
    rfl

theorem PlanStep.ended {tools : List (ToolSpec F)} {step steps : ℕ} {s s' : Run F}
    {r : Except Exn (Option (Text × StopReason))} (h : PlanStep svc settings tools step s r s')
    (hs : Planning settings step s) (hle : step + 1 ≤ steps) :
    (∀ e, r = .error e → Ended settings steps (.error e) s') ∧
      ∀ text reason, r = .ok (some (text, reason)) →
        Ended settings steps (.ok (text, reason, step)) s' := by
  cases h with
  | countFailed e =>
    refine ⟨fun _ he => ?_, by simp⟩
    cases he
    exact (hs.afterCount tools _).failed (by omega)
  | overBudget final _ =>
    refine ⟨by simp, fun text reason hr => ?_⟩
    cases hr
    refine (hs.afterCount tools _).endedForced (by omega) _ fun _ _ _ hok => ?_
    cases hok
    exact ⟨Or.inr rfl, final, rfl⟩
  | overBudgetFailed e _ =>
    refine ⟨fun _ he => ?_, by simp⟩
    cases he
    exact (hs.afterCount tools _).endedForced (by omega) _ (by simp)
  | planFailed e _ =>
    refine ⟨fun _ he => ?_, by simp⟩
    cases he
    exact (hs.afterCount tools _).planFailed hle tools e
  | @answered projected response _ _ =>
    refine ⟨by simp, fun text reason hr => ?_⟩
    cases hr
    exact (hs.next tools projected response).answered hle _
  | called _ _ _ => exact ⟨by simp, by simp⟩
  | @callFailed projected response _ _ _ _ htools =>
    refine ⟨fun _ he => ?_, by simp⟩
    cases he
    exact (((hs.next tools projected response).told _).of_effect htools.completions
      htools.effect).failed hle

theorem PlanLoop.ended {tools : List (ToolSpec F)} {left step : ℕ} {s s' : Run F}
    {r : Except Exn (Text × StopReason × ℕ)}
    (h : PlanLoop svc settings tools left step s r s') (hs : Planning settings step s) :
    Ended settings (step + left) r s' := by
  induction h with
  | capped final =>
    refine hs.endedForced (by omega) _ fun _ _ _ hok => ?_
    cases hok
    exact ⟨Or.inl rfl, final, rfl⟩
  | cappedFailed e => exact hs.endedForced (by omega) _ (by simp)
  | failed hstep => exact (hstep.ended hs (by omega)).1 _ rfl
  | stopped hstep => exact (hstep.ended hs (by omega)).2 _ _ rfl
  | @continued left step s s' r s'' hstep _ ih =>
    have h := ih (hstep.planning hs)
    rwa [Nat.add_right_comm, Nat.add_assoc] at h

theorem Seeded.tracked {question : Text} {topK : ℤ} {filters : Option SearchFilters}
    {r : Except Exn (List (ToolSpec F))} {s : Run F}
    (h : Seeded question topK filters (start svc settings) r s) :
    Tracked svc settings s [] ∧ Planning settings 0 s := by
  cases h <;>
    exact ⟨⟨by simp [logged, told, entered, start], by simp, by simp, by simp⟩,
      ⟨by simp [logged, told, entered, start], by simp [logged, told, entered, start], rfl, rfl,
        by simp [totalUsage, logged, told, entered, start], rfl⟩⟩

/-! ### Whole runs -/

/-- The completions of a run: those with tools, then at most one without. -/
structure CompletionsBounded (settings : Settings) (result : Except Exn Unit)
    (log : List (Action F)) : Prop where
  split : ∃ planned final, completions log = planned ++ final ∧
    planned.length ≤ settings.maxAgentSteps ∧ final.length ≤ 1 ∧
    (∀ c ∈ planned, WithTools c = true) ∧ ∀ c ∈ final, WithTools c = false
  done : result = .ok () → ∃ data, .emit (.done data) ∈ log
  forced_iff : ∀ data, .emit (.done data) ∈ log →
    ((∃ c ∈ completions log, WithTools c = false) ↔
      data.stopReason = .stepCap ∨ data.stopReason = .tokenBudget)

/-- The calls of a run: blocks of attempts at pairwise different calls. -/
structure CallsBounded (settings : Settings) (log : List (Action F)) : Prop where
  blocks : ∃ blocks : List (CallBlock F), toolCalls log = blocks.flatMap CallBlock.attempts ∧
    (∀ b ∈ blocks, b.Retried settings) ∧
    blocks.Pairwise fun b b' => ¬ SameCall b.call b'.call

theorem Tracked.bounded {s : Run F} {blocks : List (CallBlock F)}
    (h : Tracked svc settings s blocks) : CallsBounded settings s.log := by
  refine ⟨blocks, h.calls, h.retried, ?_⟩
  have hdistinct := List.pairwise_map.mp h.distinct
  exact hdistinct.imp fun hne hsame => hne (cycleKey_eq_of_sameCall svc.py hsame)

theorem completions_closing (events : List (AgentEvent F)) :
    completions (events.map Action.emit) = [] := by
  simp [completions, List.filterMap_map, Function.comp_def]

theorem toolCalls_closing (events : List (AgentEvent F)) :
    toolCalls (events.map Action.emit) = [] := by
  simp [toolCalls, List.filterMap_map, Function.comp_def]

theorem not_mem_done {log : List (Action F)} (h : ∀ a ∈ log, LoopAction a) (data : Done) :
    .emit (.done data) ∉ log := fun hm => h _ hm _ rfl

/-- A run that raises delivers nothing, so its completions are all there is to bound. -/
theorem Ended.bounded_error {r : Except Exn (Text × StopReason × ℕ)} {e : Exn} {s : Run F}
    (h : Ended settings settings.maxAgentSteps r s) (hloop : ∀ a ∈ s.log, LoopAction a) :
    CompletionsBounded settings (.error e) s.log := by
  obtain ⟨planned, final, hsplit, hplanned, hfinal, hwith, hwithout, -⟩ := h.split
  exact ⟨⟨planned, final, hsplit, hplanned, hfinal, hwith, hwithout⟩, by simp,
    fun data hdata => absurd hdata (not_mem_done hloop data)⟩

theorem Ended.bounded {text : Text} {reason : StopReason} {step : ℕ} {s : Run F} {cleaned : Text}
    {used : List ℕ} (h : Ended settings settings.maxAgentSteps (.ok (text, reason, step)) s)
    (hloop : ∀ a ∈ s.log, LoopAction a) :
    CompletionsBounded settings (.ok ())
      (logged s ((closing s cleaned used reason step).map .emit)).log := by
  obtain ⟨planned, final, hsplit, hplanned, hfinal, hwith, hwithout, hforced⟩ := h.split
  have hcompletions : completions (logged s ((closing s cleaned used reason step).map .emit)).log =
      planned ++ final := by
    simp [logged, completions_closing, hsplit]
  refine ⟨⟨planned, final, hcompletions, hplanned, hfinal, hwith, hwithout⟩, fun _ => ?_,
    fun data hdata => ?_⟩
  · exact ⟨_, List.mem_append_right _ (List.mem_map_of_mem (done_mem_closing.mpr rfl))⟩
  · have hdone := done_mem_closing.mp (mem_closing hloop (by simp [LoopEvent]) hdata)
    rw [hcompletions, hdone, ← hforced text reason step rfl]
    constructor
    · rintro ⟨c, hc, hcw⟩
      rcases List.mem_append.mp hc with hc | hc
      · simp [hwith c hc] at hcw
      · exact List.ne_nil_of_mem hc
    · intro hne
      obtain ⟨c, hc⟩ := List.exists_mem_of_ne_nil final hne
      exact ⟨c, List.mem_append_right _ hc, hwithout c hc⟩

/-- Whatever the model and the tools do, a run makes a bounded number of completions
and attempts every call a bounded number of times and no call twice. -/
theorem run_guarded (svc : Services F) (settings : Settings) (question : Text) (topK : Option ℤ)
    (filters : Option SearchFilters) :
    CompletionsBounded settings (run svc settings question topK filters).1
        (run svc settings question topK filters).2.log ∧
      CallsBounded settings (run svc settings question topK filters).2.log := by
  have h := run_finished svc settings question topK filters
  generalize (run svc settings question topK filters).1 = r at h ⊢
  generalize (run svc settings question topK filters).2 = s at h ⊢
  cases h with
  | seedFailed hseed =>
    obtain ⟨htracked, hplanning⟩ := hseed.tracked
    exact ⟨(hplanning.failed (e := .valueError) (Nat.zero_le _)).bounded_error hseed.inLoop,
      htracked.bounded⟩
  | loopFailed hseed hloop =>
    obtain ⟨htracked, hplanning⟩ := hseed.tracked
    obtain ⟨blocks, hblocks⟩ := hloop.tracked ⟨_, htracked⟩
    have hended := hloop.ended hplanning
    rw [Nat.zero_add] at hended
    exact ⟨hended.bounded_error (PlanLoop.inLoop hseed hloop), hblocks.bounded⟩
  | finished hseed hloop hdeliver =>
    obtain ⟨htracked, hplanning⟩ := hseed.tracked
    obtain ⟨blocks, hblocks⟩ := hloop.tracked ⟨_, htracked⟩
    have hended := hloop.ended hplanning
    rw [Nat.zero_add] at hended
    have hinLoop := PlanLoop.inLoop hseed hloop
    cases hdeliver with
    | unreadable _ => exact ⟨hended.bounded_error hinLoop, hblocks.bounded⟩
    | delivered _ =>
      have hlogged : ∀ actions, toolCalls actions = [] →
          Tracked svc settings (logged _ actions) blocks := fun actions h =>
        hblocks.of_eq (by simp [logged, h]) rfl
      exact ⟨hended.bounded hinLoop, (hlogged _ (toolCalls_closing _)).bounded⟩

/-! ### The token budget -/

/-- At each planning step the projection covered the reported input, and the output
stayed within its cap. -/
def Projected (settings : Settings) (log : List (Action F)) : Prop :=
  ∀ (request request' : Request F) (projected : ℤ) (step : ℕ) (response : LLMResponse F),
    [.countTokens request (.ok projected), .emit (.planning step),
      .complete request' (.ok response)] <:+: log →
    response.usage.inputTokens ≤ projected ∧
      response.usage.outputTokens ≤ (settings.maxOutputTokens : ℤ)

/-- The planning completions stay within the limit at every point of the history. -/
def WithinBudget (limit : ℤ) (log : List (Action F)) : Prop :=
  ∀ log', log' <+: log → plannedTotal log' ≤ limit

theorem WithinBudget.concat {limit : ℤ} {log : List (Action F)} {a : Action F}
    (h : WithinBudget limit log) (ha : plannedTotal (log ++ [a]) ≤ limit) :
    WithinBudget limit (log ++ [a]) := by
  intro log' hlog'
  rcases List.prefix_concat_iff.mp hlog' with rfl | hlog'
  · exact ha
  · exact h log' hlog'

/-- An action that adds nothing to the planned total. -/
def Unplanned (a : Action F) : Prop :=
  ∀ c, completionOf a = some c → WithTools c = true → usageOf c = 0

theorem plannedTotal_concat {log : List (Action F)} {a : Action F} (ha : Unplanned a) :
    plannedTotal (log ++ [a]) = plannedTotal log := by
  have hcompletions : completions (log ++ [a]) = completions log ++ (completionOf a).toList := by
    rw [completions_append, completions_cons, completions_nil, List.append_nil]
  rw [plannedTotal, plannedTotal, hcompletions, List.filter_append]
  cases h : completionOf a with
  | none => simp
  | some c => by_cases hc : WithTools c = true <;> simp [hc, ha c h]

theorem WithinBudget.append {limit : ℤ} {log seg : List (Action F)} (h : WithinBudget limit log)
    (hseg : ∀ a ∈ seg, Unplanned a) : WithinBudget limit (log ++ seg) := by
  induction seg using List.reverseRecOn with
  | nil => simpa using h
  | append_singleton seg a ih =>
    have hbefore := ih fun x hx => hseg x (by simp [hx])
    rw [← List.append_assoc]
    refine hbefore.concat ?_
    rw [plannedTotal_concat (hseg a (by simp))]
    exact hbefore _ (List.prefix_refl _)

theorem ToolAction.unplanned {a : Action F} (h : ToolAction a) : Unplanned a := by
  cases a <;> first | exact h.elim | simp [Unplanned]

theorem Projected.of_prefix {log log' : List (Action F)} (h : Projected settings log')
    (hbefore : log <+: log') : Projected settings log :=
  fun _ _ _ _ _ hin => h _ _ _ _ _ (hin.trans hbefore.isInfix)

/-- At the head of the loop every completion so far was a planning completion. -/
theorem Planning.plannedTotal_eq {step : ℕ} {s : Run F} (h : Planning settings step s) :
    plannedTotal s.log = s.budget.consumed := by
  rw [plannedTotal, List.filter_eq_self.mpr h.withTools, ← totalUsage, ← h.usage, h.consumed]

theorem WithinBudget.afterCount {limit : ℤ} {s : Run F} (h : WithinBudget limit s.log)
    (tools : List (ToolSpec F)) (result : Except Exn ℤ) :
    WithinBudget limit (counted tools s result).log := h.append (by simp [Unplanned])

theorem WithinBudget.afterForced {limit : ℤ} {s : Run F} (h : WithinBudget limit s.log)
    (result : Except Exn (LLMResponse F)) :
    WithinBudget limit (forced settings s result).log := by
  cases result <;> exact h.append (by simp [Unplanned, WithTools])

theorem WithinBudget.planFailed {limit : ℤ} {s : Run F} (h : WithinBudget limit s.log)
    (tools : List (ToolSpec F)) (step : ℕ) (e : Exn) :
    WithinBudget limit (planned settings tools step s (.error e)).log := by
  have hlog : (planned settings tools step s (.error e)).log = s.log ++
      [.emit (.planning step), .complete ⟨agentSystem, s.messages, some tools,
        some settings.maxOutputTokens⟩ (.error e)] := by
    simp [planned, completed, logged]
  rw [hlog]
  exact h.append (by simp [Unplanned, usageOf])

/-- The step that carries the bound: an affordable projection that held keeps the
total within the limit. -/
theorem Planning.within {step : ℕ} {s : Run F} (h : Planning settings step s)
    (hwithin : WithinBudget settings.perRequestTokenBudget s.log) {tools : List (ToolSpec F)}
    {projected : ℤ} {response : LLMResponse F} (hafford : s.budget.canAfford projected = true)
    (hprojected : Projected settings
      (planned settings tools step (counted tools s (.ok projected)) (.ok response)).log) :
    WithinBudget settings.perRequestTokenBudget
      (planned settings tools step (counted tools s (.ok projected)) (.ok response)).log := by
  have hnext := h.next tools projected response
  have htotal := hnext.plannedTotal_eq
  have hlog : (planned settings tools step (counted tools s (.ok projected)) (.ok response)).log =
      s.log ++ [.countTokens ⟨agentSystem, s.messages, some tools, none⟩ (.ok projected),
        .emit (.planning step)] ++ [.complete ⟨agentSystem, s.messages, some tools,
          some settings.maxOutputTokens⟩ (.ok response)] := by
    simp [planned, completed, counted, logged]
  have hbudget : (planned settings tools step (counted tools s (.ok projected))
      (.ok response)).budget = s.budget.reconcile response.usage := rfl
  rw [hbudget] at htotal
  rw [hlog] at hprojected htotal ⊢
  obtain ⟨hin, hout⟩ := hprojected ⟨agentSystem, s.messages, some tools, none⟩
    ⟨agentSystem, s.messages, some tools, some settings.maxOutputTokens⟩ projected step response
    ⟨s.log, [], by simp⟩
  refine (hwithin.append (by simp [Unplanned])).concat ?_
  rw [htotal, ← h.limit]
  exact TokenBudget.reconcile_le hafford hin (by rw [h.reserve]; exact hout)

theorem ToolSteps.within {limit : ℤ} {step : ℕ} {tcs : List (ToolCall F)} {s s' : Run F}
    {r : Except Exn Unit} (h : ToolSteps svc settings step tcs s r s')
    (hwithin : WithinBudget limit s.log) : WithinBudget limit s'.log := by
  obtain ⟨seg, hseg, hactions⟩ := h.effect.log
  rw [hseg]
  exact hwithin.append fun a ha => (hactions a ha).unplanned

theorem PlanStep.within {tools : List (ToolSpec F)} {step : ℕ} {s s' : Run F}
    {r : Except Exn (Option (Text × StopReason))} (h : PlanStep svc settings tools step s r s')
    (hs : Planning settings step s)
    (hwithin : WithinBudget settings.perRequestTokenBudget s.log)
    (hprojected : Projected settings s'.log) :
    WithinBudget settings.perRequestTokenBudget s'.log := by
  cases h with
  | countFailed e => exact hwithin.afterCount tools _
  | overBudget final _ => exact (hwithin.afterCount tools _).afterForced _
  | overBudgetFailed e _ => exact (hwithin.afterCount tools _).afterForced _
  | planFailed e _ => exact (hwithin.afterCount tools _).planFailed tools step e
  | answered hafford _ => exact hs.within hwithin hafford hprojected
  | called hafford _ htools =>
    exact htools.within
      (hs.within hwithin hafford (hprojected.of_prefix htools.effect.extends.isPrefix))
  | callFailed hafford _ htools =>
    exact htools.within
      (hs.within hwithin hafford (hprojected.of_prefix htools.effect.extends.isPrefix))

theorem PlanLoop.within {tools : List (ToolSpec F)} {left step : ℕ} {s s' : Run F}
    {r : Except Exn (Text × StopReason × ℕ)}
    (h : PlanLoop svc settings tools left step s r s') (hs : Planning settings step s)
    (hwithin : WithinBudget settings.perRequestTokenBudget s.log)
    (hprojected : Projected settings s'.log) :
    WithinBudget settings.perRequestTokenBudget s'.log := by
  induction h with
  | capped final => exact hwithin.afterForced _
  | cappedFailed e => exact hwithin.afterForced _
  | failed hstep => exact hstep.within hs hwithin hprojected
  | stopped hstep => exact hstep.within hs hwithin hprojected
  | continued hstep hloop ih =>
    exact ih (hstep.planning hs)
      (hstep.within hs hwithin (hprojected.of_prefix hloop.extends.isPrefix)) hprojected

theorem withinBudget_nil {limit : ℕ} : WithinBudget (limit : ℤ) ([] : List (Action F)) := by
  intro log' h
  obtain rfl := List.prefix_nil.mp h
  simp [plannedTotal]

theorem Seeded.within {limit : ℕ} {question : Text} {topK : ℤ} {filters : Option SearchFilters}
    {r : Except Exn (List (ToolSpec F))} {s : Run F}
    (h : Seeded question topK filters (start svc settings) r s) : WithinBudget limit s.log := by
  cases h with
  | retrieveFailed e => exact withinBudget_nil.append (by simp [Unplanned])
  | listFailed chunks e =>
    exact (withinBudget_nil.append (by simp [Unplanned])).append (by simp [Unplanned])
  | ready chunks tools =>
    exact (withinBudget_nil.append (by simp [Unplanned])).append (by simp [Unplanned])

theorem usage_total_eq (log : List (Action F)) :
    (totalUsage log).total = plannedTotal log + forcedTotal log := by
  have hsum : ∀ l : List (Request F × Except Exn (LLMResponse F)), (l.map usageOf).sum.total =
      ((l.filter WithTools).map usageOf).sum.total +
        ((l.filter fun c => !WithTools c).map usageOf).sum.total := by
    intro l
    induction l with
    | nil => rfl
    | cons c l ih =>
      by_cases hc : WithTools c = true
      · simp only [List.map_cons, List.sum_cons, LLMUsage.total_add, ih, hc, List.filter_cons,
          if_true, Bool.not_true, Bool.false_eq_true, if_false]
        ring
      · simp only [List.map_cons, List.sum_cons, LLMUsage.total_add, ih, hc, List.filter_cons,
          Bool.not_false, if_true, Bool.false_eq_true, if_false]
        ring
  exact hsum _

/-- What the token budget guarantees about a history. The usage reported at the end is
that of all completions. If the projections of the planning steps held, these stay
within the budget at every point, and the reported total exceeds it by at most the
usage of the forced completion. -/
structure BudgetKept (settings : Settings) (log : List (Action F)) : Prop where
  usage : ∀ data, .emit (.done data) ∈ log → data.usage = totalUsage log
  within : Projected settings log → WithinBudget settings.perRequestTokenBudget log
  total : Projected settings log → ∀ data, .emit (.done data) ∈ log →
    data.usage.total ≤ settings.perRequestTokenBudget + forcedTotal log

theorem budgetKept_of_usage {log : List (Action F)}
    (husage : ∀ data, .emit (.done data) ∈ log → data.usage = totalUsage log)
    (hwithin : Projected settings log → WithinBudget settings.perRequestTokenBudget log) :
    BudgetKept settings log := by
  refine ⟨husage, hwithin, fun hprojected data hdata => ?_⟩
  rw [husage data hdata, usage_total_eq]
  exact add_le_add_left (hwithin hprojected _ (List.prefix_refl _)) _

/-- Every run keeps its token budget, in this sense. -/
theorem token_budget_guarantee (svc : Services F) (settings : Settings) (question : Text)
    (topK : Option ℤ) (filters : Option SearchFilters) :
    BudgetKept settings (run svc settings question topK filters).2.log := by
  have h := run_finished svc settings question topK filters
  generalize (run svc settings question topK filters).1 = r at h
  generalize (run svc settings question topK filters).2 = s at h ⊢
  cases h with
  | seedFailed hseed =>
    exact budgetKept_of_usage (fun data hdata => absurd hdata (not_mem_done hseed.inLoop data))
      fun _ => hseed.within
  | loopFailed hseed hloop =>
    have hinLoop := PlanLoop.inLoop hseed hloop
    exact budgetKept_of_usage (fun data hdata => absurd hdata (not_mem_done hinLoop data))
      (hloop.within hseed.tracked.2 hseed.within)
  | @finished tools s₀ text reason step s₁ _ _ hseed hloop hdeliver =>
    have hinLoop := PlanLoop.inLoop hseed hloop
    have hended := hloop.ended hseed.tracked.2
    cases hdeliver with
    | unreadable _ =>
      exact budgetKept_of_usage (fun data hdata => absurd hdata (not_mem_done hinLoop data))
        (hloop.within hseed.tracked.2 hseed.within)
    | @delivered cleaned used _ =>
      let events := (closing s₁ cleaned used reason step).map Action.emit
      have husage : ∀ data, .emit (.done data) ∈ s₁.log ++ events →
          data.usage = totalUsage (s₁.log ++ events) := by
        intro data hdata
        have hdone := done_mem_closing.mp (mem_closing hinLoop (by simp [LoopEvent]) hdata)
        rw [hdone, totalUsage, completions_append, completions_closing, List.append_nil]
        exact hended.usage _ rfl
      have hwithin : Projected settings (s₁.log ++ events) →
          WithinBudget settings.perRequestTokenBudget (s₁.log ++ events) := fun hprojected =>
        (hloop.within hseed.tracked.2 hseed.within
          (hprojected.of_prefix (List.prefix_append _ _))).append (by simp [Unplanned, events])
      exact budgetKept_of_usage husage hwithin

end GroundedOps.Agent.Orchestrator
