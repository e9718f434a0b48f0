import GroundedOps.Agent.OfflineAnswers

/-!
# The agent without a model

The offline provider never asks for a tool. If the agent may plan, it answers in its first step
and says what the single-shot path says; otherwise its last words replace the prompt, and
it finds no records to answer from.
-/

namespace GroundedOps.Agent.Orchestrator

open Python Llm Retrieval Program EchoLLMProvider

variable {F : Type}

/-! ### Programs that succeed -/

section Forward

variable {svc : Services F} {settings : Settings}

theorem run_await {β : Type} {answer : List (Action F) → Except Exn β}
    {record : Except Exn β → Action F} {s : Run F} {b : β} (h : answer s.log = .ok b) :
    await answer record s = .ok b (logged s [record (.ok b)]) := by
  have hattempt : attempt answer record s = .ok (.ok b) (logged s [record (.ok b)]) := by
    rw [← h]
    rfl
  rw [await, run_bind_ok hattempt]
  rfl

theorem run_complete {tools : Option (List (ToolSpec F))} {s : Run F} {response : LLMResponse F}
    (h : svc.complete s.log ⟨agentSystem, s.messages, tools, some settings.maxOutputTokens⟩ =
      .ok response) :
    complete svc settings tools s = .ok response (completed settings tools s (.ok response)) := by
  rw [complete, run_get_bind]
  have hawait := @run_await F _ (fun log => svc.complete log
      ⟨agentSystem, s.messages, tools, some settings.maxOutputTokens⟩)
    (.complete ⟨agentSystem, s.messages, tools, some settings.maxOutputTokens⟩) s response h
  rw [run_bind_ok hawait]
  rfl

theorem run_finalCompletion {s : Run F} {response : LLMResponse F}
    (h : svc.complete s.log ⟨agentSystem, s.messages ++ [.user stopUsingTools], none,
      some settings.maxOutputTokens⟩ = .ok response) :
    finalCompletion svc settings s = .ok response (forced settings s (.ok response)) := by
  have hsend : send (.user stopUsingTools) s = .ok ⟨⟩ (told s (.user stopUsingTools)) := rfl
  rw [finalCompletion, run_bind_ok hsend]
  exact run_complete h

theorem run_count {tools : List (ToolSpec F)} {s : Run F} {n : ℤ}
    (h : svc.countTokens s.log ⟨agentSystem, s.messages, some tools, none⟩ = .ok n) :
    count svc tools s = .ok n (counted tools s (.ok n)) := by
  rw [count, run_get_bind]
  exact @run_await F _ (fun log => svc.countTokens log ⟨agentSystem, s.messages, some tools, none⟩)
    _ s n h

theorem run_planStep_overBudget {tools : List (ToolSpec F)} {step : ℕ} {s : Run F} {n : ℤ}
    {response : LLMResponse F}
    (hcount : svc.countTokens s.log ⟨agentSystem, s.messages, some tools, none⟩ = .ok n)
    (hafford : s.budget.canAfford n = false)
    (hcomplete : svc.complete (counted tools s (.ok n)).log
      ⟨agentSystem, s.messages ++ [.user stopUsingTools], none, some settings.maxOutputTokens⟩ =
        .ok response) :
    planStep svc settings tools step s = .ok (some (response.text, .tokenBudget))
      (forced settings (counted tools s (.ok n)) (.ok response)) := by
  have hcheck : (!(counted tools s (.ok n)).budget.canAfford n) = true := by
    simp [counted, logged, hafford]
  rw [planStep, run_bind_ok (run_count hcount), run_get_bind, if_pos hcheck,
    run_bind_ok (run_finalCompletion hcomplete)]
  rfl

theorem run_planStep_answered {tools : List (ToolSpec F)} {step : ℕ} {s : Run F} {n : ℤ}
    {response : LLMResponse F}
    (hcount : svc.countTokens s.log ⟨agentSystem, s.messages, some tools, none⟩ = .ok n)
    (hafford : s.budget.canAfford n = true)
    (hcomplete : svc.complete (logged (counted tools s (.ok n)) [.emit (.planning step)]).log
      ⟨agentSystem, s.messages, some tools, some settings.maxOutputTokens⟩ = .ok response)
    (hcalls : response.toolCalls = []) :
    planStep svc settings tools step s = .ok (some (response.text, .answered))
      (planned settings tools step (counted tools s (.ok n)) (.ok response)) := by
  have hcheck : ¬ (!(counted tools s (.ok n)).budget.canAfford n) = true := by
    simp [counted, logged, hafford]
  have hemit : emit (.planning step) (counted tools s (.ok n)) =
      .ok ⟨⟩ (logged (counted tools s (.ok n)) [.emit (.planning step)]) := rfl
  rw [planStep, run_bind_ok (run_count hcount), run_get_bind, if_neg hcheck, run_bind_ok hemit,
    run_bind_ok (run_complete hcomplete)]
  simp only [hcalls]
  rfl

theorem run_deliver {text cleaned : Text} {used : List ℕ} {reason : StopReason} {step : ℕ}
    {s : Run F} (h : validateAndStrip text s.registry = .ok (cleaned, used)) :
    deliver text reason step s = .ok ⟨⟩ (logged s ((closing s cleaned used reason step).map .emit)) := by
  have hspec := wp_iff.mp (deliver_spec text reason step s)
  cases hrun : deliver text reason step s with
  | ok _ s' =>
    cases hspec.1 _ _ hrun with
    | delivered hvalid =>
      cases h.symm.trans hvalid
      rfl
  | error e s' =>
    cases hspec.2 _ _ hrun with
    | unreadable hvalid => cases h.symm.trans hvalid

end Forward

/-! ### The collaborators -/

/-- The offline provider with some retrieval, some tools and some clock. -/
def offlineServices (py : Interpreter F)
    (retrieve : Text → ℤ → Option SearchFilters → Except Exn (List (RetrievedChunk F)))
    (tools : List (ToolSpec F))
    (call : List (Action F) → Text → Json F → ℕ → Except Exn (ToolOutcome F))
    (perfCounter : List (Action F) → ℚ) : Services F where
  py
  modelName := EchoLLMProvider.modelName
  retrieve _ := retrieve
  listTools _ := .ok tools
  countTokens _ := echoProvider.countTokens
  complete _ request := echoProvider.complete request none
  call
  perfCounter

section Offline

variable {py : Interpreter F}
  {retrieve : Text → ℤ → Option SearchFilters → Except Exn (List (RetrievedChunk F))}
  {tools : List (ToolSpec F)}
  {call : List (Action F) → Text → Json F → ℕ → Except Exn (ToolOutcome F)}
  {perfCounter : List (Action F) → ℚ} {settings : Settings}

/-- The state in which planning starts. -/
def seededState (svc : Services F) (settings : Settings) (question : Text) (topK : ℤ)
    (filters : Option SearchFilters) (tools : List (ToolSpec F))
    (chunks : List (RetrievedChunk F)) : Run F :=
  told (logged (entered question topK filters (start svc settings) chunks)
    [.listTools (.ok tools), .render (registryOf chunks).entries])
    (.user (buildAgentPrompt question (registryOf chunks)))

theorem run_seed {question : Text} {topK : Option ℤ} {filters : Option SearchFilters}
    {chunks : List (RetrievedChunk F)}
    (h : retrieve question (effectiveTopK settings topK) filters = .ok chunks) :
    seed (offlineServices py retrieve tools call perfCounter) settings question topK filters
        (start (offlineServices py retrieve tools call perfCounter) settings) =
      .ok tools (seededState (offlineServices py retrieve tools call perfCounter) settings question
        (effectiveTopK settings topK) filters tools chunks) := by
  have hemit : ∀ s : Run F, emit .seeding s = .ok () (logged s [.emit .seeding]) := fun _ => rfl
  rw [seed, run_bind_ok (hemit _), run_bind_ok (run_await h)]
  rfl

theorem consume_closing (modelName : Text) (s : Run F) (cleaned : Text) (used : List ℕ)
    (reason : StopReason) (step : ℕ) :
    (closing s cleaned used reason step).foldl consume { model := modelName } =
      ⟨cleaned, sourcesFor s.registry used, used, s.trace, s.usage,
        Core.costUsd s.model s.usage.inputTokens s.usage.outputTokens, s.model, step, reason⟩ := by
  rw [closing, List.foldl_append, consume_tokens, List.nil_append, flatten_toChunks]
  rfl

/-- A run whose loop has ended returns what it delivers, if the events before are only status. -/
theorem runResult_of_loop {question : Text} {topK : Option ℤ} {filters : Option SearchFilters}
    {chunks : List (RetrievedChunk F)}
    (hretrieve : retrieve question (effectiveTopK settings topK) filters = .ok chunks)
    {text cleaned : Text} {used : List ℕ} {reason : StopReason} {step : ℕ} {s : Run F}
    (hloop : planLoop (offlineServices py retrieve tools call perfCounter) settings tools
      settings.maxAgentSteps 0 (seededState (offlineServices py retrieve tools call perfCounter)
        settings question (effectiveTopK settings topK) filters tools chunks) =
          .ok (text, reason, step) s)
    (hvalid : validateAndStrip text s.registry = .ok (cleaned, used))
    (hstatus : (eventsOf s.log).foldl consume { model := EchoLLMProvider.modelName } =
      { model := EchoLLMProvider.modelName }) :
    runResult (offlineServices py retrieve tools call perfCounter) settings question topK filters =
      .ok ⟨cleaned, sourcesFor s.registry used, used, s.trace, s.usage,
        Core.costUsd s.model s.usage.inputTokens s.usage.outputTokens, s.model, step, reason⟩ := by
  have hevents : events (offlineServices py retrieve tools call perfCounter) settings question topK
      filters (start (offlineServices py retrieve tools call perfCounter) settings) =
        .ok ⟨⟩ (logged s ((closing s cleaned used reason step).map .emit)) := by
    rw [events, run_bind_ok (run_seed hretrieve), run_bind_ok hloop]
    exact run_deliver hvalid
  have hrun : run (offlineServices py retrieve tools call perfCounter) settings question topK
      filters = (.ok (), logged s ((closing s cleaned used reason step).map .emit)) := by
    rw [run, hevents]
  rw [runResult, hrun]
  have hlog : eventsOf (logged s ((closing s cleaned used reason step).map Action.emit)).log =
      eventsOf s.log ++ closing s cleaned used reason step := by
    rw [logged, eventsOf_append, eventsOf_map_emit]
  simp only [hlog, List.foldl_append]
  have hmodel : (offlineServices py retrieve tools call perfCounter).modelName =
      EchoLLMProvider.modelName := rfl
  rw [hmodel, hstatus, consume_closing]

/-- The agent has a step to plan in, and the budget for it. -/
def MayPlan (settings : Settings) (question : Text) (registry : CitationRegistry) : Prop :=
  0 < settings.maxAgentSteps ∧
    tokens (buildAgentPrompt question registry) + tokens agentSystem + settings.maxOutputTokens ≤
      settings.perRequestTokenBudget

/-- The agent asks with its last words when it may not plan. -/
theorem answer_stopUsingTools (before : List (LLMMessage F)) :
    answer (before ++ [.user stopUsingTools]) = notEnough := by
  have hlast : lastUser (before ++ [LLMMessage.user (F := F) stopUsingTools]) = stopUsingTools := by
    rw [lastUser, List.reverse_append]
    rfl
  have hnone : findRecords stopUsingTools = [] := by decide +kernel
  rw [answer, hlast, hnone]

theorem countTokens_user (system text : Text) (tools : Option (List (ToolSpec F)))
    (maxTokens : Option ℕ) :
    countTokens ⟨system, [LLMMessage.user text], tools, maxTokens⟩ = tokens text + tokens system := by
  simp [countTokens, LLMMessage.user]

section Runs

variable {question : Text} {topK : Option ℤ} {filters : Option SearchFilters}
  {chunks : List (RetrievedChunk F)}

theorem planned_offline (hplan : MayPlan settings question (registryOf chunks)) :
    ∃ s, planLoop (offlineServices py retrieve tools call perfCounter) settings tools
        settings.maxAgentSteps 0 (seededState (offlineServices py retrieve tools call perfCounter)
          settings question (effectiveTopK settings topK) filters tools chunks) =
            .ok (answer [LLMMessage.user (F := F) (buildAgentPrompt question (registryOf chunks))],
              .answered, 0) s ∧
      s.registry = registryOf chunks ∧ s.trace = [] ∧ s.model = EchoLLMProvider.modelName ∧
      eventsOf s.log = [.seeding, .planning 0] := by
  obtain ⟨hsteps, hbudget⟩ := hplan
  obtain ⟨left, hleft⟩ := Nat.exists_eq_add_of_lt hsteps
  rw [Nat.zero_add] at hleft
  have hafford : (seededState (offlineServices py retrieve tools call perfCounter) settings question
      (effectiveTopK settings topK) filters tools chunks).budget.canAfford
        (countTokens (F := F) ⟨agentSystem, [.user (buildAgentPrompt question (registryOf chunks))],
          some tools, none⟩) = true := by
    rw [countTokens_user, TokenBudget.canAfford, decide_eq_true_eq]
    simp only [seededState, told, logged, entered, start]
    omega
  rw [hleft, planLoop, run_bind_ok (run_planStep_answered rfl hafford rfl rfl)]
  exact ⟨_, rfl, rfl, rfl, rfl, rfl⟩

theorem refused_offline (hplan : ¬ MayPlan settings question (registryOf chunks)) :
    ∃ reason s, reason ≠ .answered ∧
      planLoop (offlineServices py retrieve tools call perfCounter) settings tools
        settings.maxAgentSteps 0 (seededState (offlineServices py retrieve tools call perfCounter)
          settings question (effectiveTopK settings topK) filters tools chunks) =
            .ok (notEnough, reason, 0) s ∧
      s.registry = registryOf chunks ∧ s.trace = [] ∧ s.model = EchoLLMProvider.modelName ∧
      eventsOf s.log = [.seeding] := by
  have hwords : answer (F := F) ([.user (buildAgentPrompt question (registryOf chunks))] ++
      [.user stopUsingTools]) = notEnough := answer_stopUsingTools _
  cases hsteps : settings.maxAgentSteps with
  | zero =>
    have hloop : ∀ s : Run F, planLoop (offlineServices py retrieve tools call perfCounter)
        settings tools 0 0 s = .ok (answer (s.messages ++ [.user stopUsingTools]), .stepCap, 0)
          (forced settings s (.ok (EchoLLMProvider.complete
            ⟨agentSystem, s.messages ++ [.user stopUsingTools], none,
              some settings.maxOutputTokens⟩))) := by
      intro s
      rw [planLoop, run_bind_ok (run_finalCompletion rfl)]
      rfl
    rw [hloop]
    have hmessages : (seededState (offlineServices py retrieve tools call perfCounter) settings
        question (effectiveTopK settings topK) filters tools chunks).messages =
          [.user (buildAgentPrompt question (registryOf chunks))] := rfl
    rw [hmessages, hwords]
    exact ⟨.stepCap, _, by decide, rfl, rfl, rfl, rfl, rfl⟩
  | succ left =>
    have hafford : (seededState (offlineServices py retrieve tools call perfCounter) settings
        question (effectiveTopK settings topK) filters tools chunks).budget.canAfford
          (countTokens (F := F)
            ⟨agentSystem, [.user (buildAgentPrompt question (registryOf chunks))],
              some tools, none⟩) = false := by
      rw [countTokens_user, TokenBudget.canAfford, decide_eq_false_iff_not]
      simp only [seededState, told, logged, entered, start]
      intro hbudget
      exact hplan ⟨by omega, by omega⟩
    rw [planLoop, run_bind_ok (run_planStep_overBudget rfl hafford rfl)]
    have htext : (EchoLLMProvider.complete (F := F) ⟨agentSystem,
        [.user (buildAgentPrompt question (registryOf chunks))] ++ [.user stopUsingTools], none,
          some settings.maxOutputTokens⟩).text = notEnough := hwords
    have hreturn : ∀ (text : Text) (s : Run F), (pure (text, StopReason.tokenBudget, 0) :
        AgentM F (Text × StopReason × ℕ)) s = .ok (text, .tokenBudget, 0) s := fun _ _ => rfl
    have hend := hreturn notEnough
    rw [← htext] at hend ⊢
    exact ⟨.tokenBudget, _, by decide, hend _, rfl, rfl, rfl, rfl⟩

/-- Offline the agent says what the single-shot path says if it may plan, and otherwise that it
knows nothing. -/
theorem offline_agent_agrees
    (hretrieve : retrieve question (effectiveTopK settings topK) filters = .ok chunks)
    (hsafe : FenceSafe question (registryOf chunks).entries)
    (hread : Readable (registryOf chunks).entries) (maxTokens : ℕ) :
    (MayPlan settings question (registryOf chunks) → ∃ r out,
      runResult (offlineServices py retrieve tools call perfCounter) settings question topK
        filters = .ok r ∧
      generateGroundedAnswer retrieve echoProvider question (effectiveTopK settings topK) maxTokens
        filters = .ok out ∧
      (r.answer, r.sources, r.usedIndices, r.model, r.costUsd) =
        (out.answer, out.sources, out.usedIndices, out.model, out.costUsd) ∧
      r.costUsd = 0 ∧ r.trace = [] ∧ r.steps = 0 ∧ r.stopReason = .answered) ∧
    (¬ MayPlan settings question (registryOf chunks) → ∃ r,
      runResult (offlineServices py retrieve tools call perfCounter) settings question topK
        filters = .ok r ∧
      (r.answer, r.sources, r.usedIndices, r.costUsd) = (notEnough, [], [], 0) ∧ r.trace = [] ∧
      r.steps = 0 ∧ r.stopReason ≠ .answered) := by
  constructor
  · intro hplan
    obtain ⟨used, hvalid, -⟩ := validate_spoken hread
    have hanswer : answer [LLMMessage.user (F := F)
        (buildAgentPrompt question (registryOf chunks))] = spoken (registryOf chunks).entries :=
      answer_fill hsafe
    obtain ⟨s, hloop, hregistry, htrace, hmodel, hevents⟩ := @planned_offline F py retrieve tools
      call perfCounter settings question topK filters chunks hplan
    rw [hanswer] at hloop
    have hstatus : (eventsOf s.log).foldl consume { model := EchoLLMProvider.modelName } =
        { model := EchoLLMProvider.modelName } := by
      rw [hevents]
      rfl
    have hagent := runResult_of_loop hretrieve hloop (by rw [hregistry]; exact hvalid) hstatus
    rw [hregistry, htrace, hmodel, costUsd_offline] at hagent
    exact ⟨_, _, hagent, generateGroundedAnswer_offline hretrieve hsafe maxTokens hvalid, rfl, rfl,
      rfl, rfl, rfl⟩
  · intro hplan
    obtain ⟨reason, s, hreason, hloop, hregistry, htrace, hmodel, hevents⟩ := @refused_offline F py
      retrieve tools call perfCounter settings question topK filters chunks hplan
    have hstatus : (eventsOf s.log).foldl consume { model := EchoLLMProvider.modelName } =
        { model := EchoLLMProvider.modelName } := by
      rw [hevents]
      rfl
    have hagent := runResult_of_loop hretrieve hloop (validate_notEnough s.registry) hstatus
    rw [htrace, hmodel, costUsd_offline] at hagent
    have hsources : sourcesFor s.registry [] = [] := by simp [sourcesFor]
    rw [hsources] at hagent
    exact ⟨_, hagent, rfl, rfl, rfl, hreason⟩

end Runs

end Offline

def offlineSettings (budget : ℕ) : Settings where
  retrievalTopK := 8
  maxAgentSteps := 2
  perRequestTokenBudget := budget
  toolTimeoutSeconds := 15
  maxToolRetries := 1
  maxOutputTokens := 1024

def honestRetrieve (_ : Text) (_ : ℤ) (_ : Option SearchFilters) :
    Except Exn (List (RetrievedChunk Unit)) := .ok honestChunks

theorem offline_agent_agrees_honest :
    ∃ budget r out, runResult (offlineServices plainInterpreter honestRetrieve [] (fun _ _ _ _ =>
        .error .valueError) fun _ => 0) (offlineSettings budget) "q".toList none none = .ok r ∧
      generateGroundedAnswer honestRetrieve echoProvider "q".toList
        (effectiveTopK (offlineSettings budget) none) 1024 none = .ok out ∧
      (r.answer, r.sources, r.usedIndices, r.model, r.costUsd) =
        (out.answer, out.sources, out.usedIndices, out.model, out.costUsd) ∧
      r.costUsd = 0 ∧ r.trace = [] ∧ r.steps = 0 ∧ r.stopReason = .answered := by
  obtain ⟨budget, hbudget⟩ : ∃ budget, tokens (buildAgentPrompt "q".toList
      (registryOf honestChunks)) + tokens agentSystem + 1024 ≤ budget := ⟨_, le_rfl⟩
  have hretrieve : honestRetrieve "q".toList (effectiveTopK (offlineSettings budget) none) none =
    .ok honestChunks := rfl
  have hplan : MayPlan (offlineSettings budget) "q".toList (registryOf honestChunks) :=
    ⟨Nat.zero_lt_two, hbudget⟩
  exact ⟨budget, (offline_agent_agrees hretrieve fenceSafe_honest readable_honest 1024).1 hplan⟩

end GroundedOps.Agent.Orchestrator
