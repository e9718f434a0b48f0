import GroundedOps.Agent.CitedRecords
import GroundedOps.Agent.GuardrailBounds

/-!
# What the reported cost is the cost of

The loop sums the usage of its completions and prices the sum under the model
that was named last. The sum of the costs of the single responses differs from
that by what the responses with other prices are charged too much or too little.
-/

namespace GroundedOps.Core

open Python

/-- Input and output price of a model, zero if none is configured. -/
def rates (model : Text) : ℚ × ℚ :=
  match modelPricing model with
  | none => (0, 0)
  | some price => (price.input, price.output)

theorem costUsd_eq_rates (model : Text) (inputTokens outputTokens : ℤ) :
    costUsd model inputTokens outputTokens =
      inputTokens / 1000000 * (rates model).1 + outputTokens / 1000000 * (rates model).2 := by
  unfold costUsd rates
  cases modelPricing model with
  | none => simp
  | some price => rfl

end GroundedOps.Core

namespace GroundedOps.Agent.Orchestrator

open Python Llm Retrieval GroundedOps.Core

variable {F : Type} {svc : Services F} {settings : Settings}

/-- The responses to the completions of a history. -/
def responsesOf (log : List (Action F)) : List (LLMResponse F) :=
  (completions log).filterMap fun c => c.2.toOption

@[simp] theorem responsesOf_append (a b : List (Action F)) :
    responsesOf (a ++ b) = responsesOf a ++ responsesOf b := by
  rw [responsesOf, completions_append, List.filterMap_append]
  rfl

/-- The model a response is charged under: its own, or else the provider's. -/
def chargedModel (modelName : Text) (response : LLMResponse F) : Text :=
  if response.model.isEmpty then modelName else response.model

def summedCost (modelName : Text) (responses : List (LLMResponse F)) : ℚ :=
  (responses.map fun r =>
    costUsd (chargedModel modelName r) r.usage.inputTokens r.usage.outputTokens).sum

/-- The model that was named last, which the loop prices everything under. -/
def lastModel (modelName : Text) (responses : List (LLMResponse F)) : Text :=
  responses.foldl (fun model r => if r.model.isEmpty then model else r.model) modelName

/-- The responses whose own model has other prices than the last one. -/
def mispriced (modelName : Text) (responses : List (LLMResponse F)) : List (LLMResponse F) :=
  responses.filter fun r =>
    rates (chargedModel modelName r) ≠ rates (lastModel modelName responses)

/-- What a response is charged too much under another model, in dollars per million. -/
def surcharge (modelName last : Text) (r : LLMResponse F) : ℚ :=
  r.usage.inputTokens * ((rates last).1 - (rates (chargedModel modelName r)).1) +
    r.usage.outputTokens * ((rates last).2 - (rates (chargedModel modelName r)).2)

/-- The mispriced responses are charged too much and too little by the same amount. -/
def SurchargesCancel (modelName : Text) (responses : List (LLMResponse F)) : Prop :=
  ((mispriced modelName responses).map
    (surcharge modelName (lastModel modelName responses))).sum = 0

theorem sum_filter_surcharge (modelName last : Text) (responses : List (LLMResponse F)) :
    ((responses.filter fun r => rates (chargedModel modelName r) ≠ rates last).map
      (surcharge modelName last)).sum = (responses.map (surcharge modelName last)).sum := by
  induction responses with
  | nil => rfl
  | cons r responses ih =>
    by_cases h : rates (chargedModel modelName r) = rates last
    · rw [List.filter_cons_of_neg (by simpa using h), ih, List.map_cons, List.sum_cons]
      simp [surcharge, h]
    · rw [List.filter_cons_of_pos (by simpa using h), List.map_cons, List.sum_cons, ih,
        List.map_cons, List.sum_cons]

/-- One price for the summed usage exceeds the sum of the single costs by the surcharges. -/
theorem costUsd_sum (modelName last : Text) (responses : List (LLMResponse F)) :
    costUsd last (responses.map LLMResponse.usage).sum.inputTokens
        (responses.map LLMResponse.usage).sum.outputTokens =
      summedCost modelName responses +
        (responses.map (surcharge modelName last)).sum / 1000000 := by
  induction responses with
  | nil => simp [summedCost, costUsd_eq_rates]
  | cons r responses ih =>
    have hsplit : ∀ i o i' o' : ℤ, costUsd last (i + i') (o + o') =
        costUsd last i o + costUsd last i' o' := by
      intro i o i' o'
      rw [costUsd_eq_rates, costUsd_eq_rates, costUsd_eq_rates]
      push_cast
      ring
    rw [List.map_cons, List.sum_cons, LLMUsage.add_inputTokens, LLMUsage.add_outputTokens, hsplit,
      ih, List.map_cons, List.sum_cons, summedCost, summedCost, List.map_cons, List.sum_cons,
      costUsd_eq_rates last, costUsd_eq_rates (chargedModel modelName r), surcharge]
    ring

theorem costUsd_eq_summed_iff (modelName : Text) (responses : List (LLMResponse F)) :
    costUsd (lastModel modelName responses) (responses.map LLMResponse.usage).sum.inputTokens
        (responses.map LLMResponse.usage).sum.outputTokens = summedCost modelName responses ↔
      SurchargesCancel modelName responses := by
  rw [costUsd_sum modelName, SurchargesCancel, mispriced, sum_filter_surcharge]
  constructor
  · intro h
    linarith
  · intro h
    rw [h]
    ring

/-- With one price there is nothing to cancel. -/
theorem surchargesCancel_of_rates {modelName : Text} {responses : List (LLMResponse F)}
    (h : ∀ r ∈ responses,
      rates (chargedModel modelName r) = rates (lastModel modelName responses)) :
    SurchargesCancel modelName responses := by
  have hnone : mispriced modelName responses = [] := by
    rw [mispriced, List.filter_eq_nil_iff]
    intro r hr
    simpa using h r hr
  rw [SurchargesCancel, hnone]
  rfl

/-! ### The model of a run -/

/-- The run's model is the one its responses named last. -/
def Modelled (svc : Services F) (s : Run F) : Prop :=
  s.model = lastModel svc.modelName (responsesOf s.log)

theorem Modelled.of_eq {s s' : Run F} (h : Modelled svc s) (hmodel : s'.model = s.model)
    (hcompletions : completions s'.log = completions s.log) : Modelled svc s' := by
  rw [Modelled, hmodel, h, responsesOf, responsesOf, hcompletions]

theorem responsesOf_completed (tools : Option (List (ToolSpec F))) (s : Run F)
    (result : Except Exn (LLMResponse F)) :
    responsesOf (completed settings tools s result).log =
      responsesOf s.log ++ result.toOption.toList := by
  cases result <;> exact responsesOf_append _ _

theorem Modelled.completed {s : Run F} (h : Modelled svc s) (tools : Option (List (ToolSpec F)))
    (result : Except Exn (LLMResponse F)) :
    Modelled svc (completed settings tools s result) := by
  have hlast : lastModel svc.modelName (responsesOf s.log ++ result.toOption.toList) =
      lastModel s.model result.toOption.toList := by
    rw [h]
    exact List.foldl_append
  rw [Modelled, responsesOf_completed, hlast]
  cases result with
  | error e => rfl
  | ok response => rfl

theorem Modelled.counted {s : Run F} (h : Modelled svc s) (tools : List (ToolSpec F))
    (result : Except Exn ℤ) : Modelled svc (counted tools s result) :=
  h.of_eq rfl (by simp [Orchestrator.counted, logged])

theorem Modelled.forced {s : Run F} (h : Modelled svc s) (result : Except Exn (LLMResponse F)) :
    Modelled svc (forced settings s result) := by
  have htold : Modelled svc (told s (.user stopUsingTools)) := h.of_eq rfl rfl
  exact htold.completed none result

theorem Modelled.planned {s : Run F} (h : Modelled svc s) (tools : List (ToolSpec F)) (step : ℕ)
    (result : Except Exn (LLMResponse F)) : Modelled svc (planned settings tools step s result) := by
  have hemit : Modelled svc (logged s [.emit (.planning step)]) := h.of_eq rfl (by simp [logged])
  have hcompleted : Modelled svc
      (Orchestrator.completed settings (some tools) (logged s [.emit (.planning step)]) result) :=
    hemit.completed (some tools) result
  cases result with
  | ok response => exact hcompleted.of_eq rfl rfl
  | error e => exact hcompleted

theorem PlanStep.modelled {tools : List (ToolSpec F)} {step : ℕ} {s s' : Run F}
    {r : Except Exn (Option (Text × StopReason))} (h : PlanStep svc settings tools step s r s')
    (hs : Modelled svc s) : Modelled svc s' := by
  apply PlanStep.invariant (I := Modelled svc) _ _ _ _ h hs
  · intro s result hs
    exact hs.counted tools result
  · intro s result hs
    exact hs.forced result
  · intro s result hs
    exact hs.planned tools step result
  · intro s response r s' hcalled hs
    exact hs.of_eq hcalled.effect.model hcalled.completions

theorem PlanLoop.modelled {tools : List (ToolSpec F)} {left step : ℕ} {s s' : Run F}
    {r : Except Exn (Text × StopReason × ℕ)} (h : PlanLoop svc settings tools left step s r s')
    (hs : Modelled svc s) : Modelled svc s' :=
  h.invariant (fun hstep => hstep.modelled) (fun _ result hs => hs.forced result) hs

theorem Seeded.modelled {question : Text} {topK : ℤ} {filters : Option SearchFilters}
    {tools : List (ToolSpec F)} {s : Run F}
    (h : Seeded question topK filters (start svc settings) (.ok tools) s) : Modelled svc s := by
  cases h
  simp [Modelled, logged, told, entered, start, responsesOf, lastModel]

/-! ### Whole runs -/

theorem totalUsage_eq_responses (log : List (Action F)) :
    totalUsage log = ((responsesOf log).map LLMResponse.usage).sum := by
  have hsum : ∀ l : List (Request F × Except Exn (LLMResponse F)), (l.map usageOf).sum =
      ((l.filterMap fun c => c.2.toOption).map LLMResponse.usage).sum := by
    intro l
    induction l with
    | nil => rfl
    | cons c l ih =>
      obtain ⟨request, result⟩ := c
      cases result with
      | ok response => simp [usageOf, Except.toOption, ih]
      | error e => simp [usageOf, Except.toOption, ih]
  exact hsum _

/-- The usage and the model of a closing event are those of the responses of the run. -/
theorem done_totals (svc : Services F) (settings : Settings) (question : Text)
    (topK : Option ℤ) (filters : Option SearchFilters) {data : Done}
    (hdone : .emit (.done data) ∈ (run svc settings question topK filters).2.log) :
    data.costUsd = costUsd
      (lastModel svc.modelName (responsesOf (run svc settings question topK filters).2.log))
      (((responsesOf (run svc settings question topK filters).2.log).map
        LLMResponse.usage).sum).inputTokens
      (((responsesOf (run svc settings question topK filters).2.log).map
        LLMResponse.usage).sum).outputTokens := by
  have h := run_finished svc settings question topK filters
  generalize (run svc settings question topK filters).1 = r at h
  generalize (run svc settings question topK filters).2 = s at h hdone ⊢
  cases h with
  | seedFailed hseed => exact absurd hdone (not_mem_done hseed.inLoop data)
  | loopFailed hseed hloop => exact absurd hdone (not_mem_done (PlanLoop.inLoop hseed hloop) data)
  | @finished tools s₀ text reason step s₁ _ _ hseed hloop hdeliver =>
    have hinLoop := PlanLoop.inLoop hseed hloop
    cases hdeliver with
    | unreadable _ => exact absurd hdone (not_mem_done hinLoop data)
    | @delivered cleaned used _ =>
      have hdata := done_mem_closing.mp (mem_closing hinLoop (by simp [LoopEvent]) hdone)
      have hresponses : responsesOf (logged s₁ ((closing s₁ cleaned used reason step).map
          Action.emit)).log = responsesOf s₁.log := by
        rw [responsesOf, responsesOf, logged, completions_append, completions_closing,
          List.append_nil]
      have husage : s₁.usage = totalUsage s₁.log :=
        (hloop.ended hseed.tracked.2).usage _ rfl
      have hmodel : s₁.model = lastModel svc.modelName (responsesOf s₁.log) :=
        hloop.modelled hseed.modelled
      rw [hresponses, hdata, hmodel, husage, totalUsage_eq_responses]

/-- The reported cost is the sum of the costs of the responses, each under its own model,
exactly if the surcharges of the mispriced ones cancel. -/
theorem cost_additive_iff (svc : Services F) (settings : Settings) (question : Text)
    (topK : Option ℤ) (filters : Option SearchFilters) (data : Done)
    (hdone : .emit (.done data) ∈ (run svc settings question topK filters).2.log) :
    data.costUsd = summedCost svc.modelName
        (responsesOf (run svc settings question topK filters).2.log) ↔
      SurchargesCancel svc.modelName
        (responsesOf (run svc settings question topK filters).2.log) := by
  rw [done_totals svc settings question topK filters hdone]
  exact costUsd_eq_summed_iff _ _

/-- In particular if no response has other prices than the model named last. -/
theorem cost_additive_of_rates (svc : Services F) (settings : Settings) (question : Text)
    (topK : Option ℤ) (filters : Option SearchFilters) {data : Done}
    (hdone : .emit (.done data) ∈ (run svc settings question topK filters).2.log)
    (hrates : ∀ r ∈ responsesOf (run svc settings question topK filters).2.log,
      rates (chargedModel svc.modelName r) = rates (lastModel svc.modelName
        (responsesOf (run svc settings question topK filters).2.log))) :
    data.costUsd = summedCost svc.modelName
      (responsesOf (run svc settings question topK filters).2.log) := by
  rw [done_totals svc settings question topK filters hdone]
  exact (costUsd_eq_summed_iff _ _).mpr (surchargesCancel_of_rates hrates)

section Scripted

/-- A million input tokens of a dearer model ask for a search; a cheaper model answers. -/
def twoModels : List (LLMResponse Unit) :=
  [{ text := []
     toolCalls := [⟨"t1".toList, "search_records".toList,
       .obj [("query".toList, .str "rollback".toList)]⟩]
     usage := ⟨1000000, 0⟩
     model := "claude-opus-4-8".toList },
   { text := "Rolled back.".toList
     usage := ⟨0, 0⟩
     model := "claude-haiku-4-5".toList }]

def twoModelsRun : Run Unit :=
  (run (scripted [outageChunk] twoModels rollbackOutcome) ⟨8, 6, 3000000, 15, 2, 2000⟩
    "why".toList none none).2

def doneOf : Action F → Option Done
  | .emit (.done data) => some data
  | _ => none

theorem mem_of_doneOf {a : Action F} {data : Done} (h : doneOf a = some data) :
    a = .emit (.done data) := by
  unfold doneOf at h
  split at h <;> cases h
  rfl

theorem twoModels_done :
    ∃ data, .emit (.done data) ∈ twoModelsRun.log ∧ data.costUsd = 1 := by
  have hcosts : (twoModelsRun.log.filterMap doneOf).map Done.costUsd = [1] := by decide +kernel
  have hmem : (1 : ℚ) ∈ (twoModelsRun.log.filterMap doneOf).map Done.costUsd := by
    rw [hcosts]
    exact List.mem_singleton.mpr rfl
  obtain ⟨data, hdata, hcost⟩ := List.mem_map.mp hmem
  obtain ⟨a, ha, hdone⟩ := List.mem_filterMap.mp hdata
  exact ⟨data, mem_of_doneOf hdone ▸ ha, hcost⟩

/-- The run reports one dollar, where its responses cost five. -/
theorem two_models_one_price : ∃ data, .emit (.done data) ∈ twoModelsRun.log ∧
    data.costUsd = 1 ∧ summedCost "fake".toList (responsesOf twoModelsRun.log) = 5 := by
  obtain ⟨data, hdata, hcost⟩ := twoModels_done
  exact ⟨data, hdata, hcost, by decide +kernel⟩

theorem cost_additive_iff_twoModels : ∃ data : Done, data.costUsd = 1 ∧
    (data.costUsd = summedCost "fake".toList (responsesOf twoModelsRun.log) ↔
      SurchargesCancel "fake".toList (responsesOf twoModelsRun.log)) := by
  obtain ⟨data, hdata, hcost⟩ := twoModels_done
  exact ⟨data, hcost, cost_additive_iff (scripted [outageChunk] twoModels rollbackOutcome)
    ⟨8, 6, 3000000, 15, 2, 2000⟩ "why".toList none none data hdata⟩

end Scripted

end GroundedOps.Agent.Orchestrator
