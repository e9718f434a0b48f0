import GroundedOps.Agent.OrchestratorRuns

/-!
# The history records the answers of the collaborators

Every entry of a history that asks a collaborator has the answer that the collaborator gives
after the entries before it.
-/

namespace GroundedOps.Agent.Orchestrator

open Python Llm Retrieval Program

variable {F : Type} (svc : Services F) (settings : Settings)

/-- The entry has the answer that is given after this history. -/
def AnsweredBy (before : List (Action F)) : Action F → Prop
  | .retrieve question topK filters result => result = svc.retrieve before question topK filters
  | .listTools result => result = svc.listTools before
  | .countTokens request result => result = svc.countTokens before request
  | .complete request result => result = svc.complete before request
  | .call tool arguments timeout result => result = svc.call before tool arguments timeout
  | .emit _ => True
  | .render _ => True

def LogRecorded (s : Run F) : Prop := ∀ before a, before ++ [a] <+: s.log → AnsweredBy svc before a

theorem LogRecorded.logged {s : Run F} (h : LogRecorded svc s) {a : Action F}
    (ha : AnsweredBy svc s.log a) : LogRecorded svc (logged s [a]) := by
  intro before b hb
  rcases List.prefix_concat_iff.mp hb with heq | hb
  · obtain ⟨hlog, hlast⟩ := List.append_inj' heq rfl
    cases hlast
    rw [hlog]
    exact ha
  · exact h before b hb

theorem keeps_act {a : Action F} (ha : ∀ before, AnsweredBy svc before a) :
    Keeps (LogRecorded svc) (act a) :=
  keeps_modify fun s hs => hs.logged svc (ha s.log)

theorem keeps_emit (event : AgentEvent F) : Keeps (LogRecorded svc) (emit event) :=
  keeps_act svc fun _ => trivial

theorem keeps_render (entries : List CitationEntry) :
    Keeps (LogRecorded svc) (act (.render entries)) :=
  keeps_act svc fun _ => trivial

theorem keeps_update {f : Run F → Run F} (hf : ∀ s, (f s).log = s.log) :
    Keeps (LogRecorded svc) (modify f : AgentM F Unit) := by
  apply keeps_modify
  intro s hs before a h
  rw [hf] at h
  exact hs before a h

theorem keeps_ofExcept {α : Type} (r : Except Exn α) :
    Keeps (LogRecorded svc) (ofExcept (F := F) r) := by
  cases r with
  | ok a => exact keeps_pure a
  | error e => exact keeps_throw e

theorem keeps_attempt {α : Type} {answer : List (Action F) → Except Exn α}
    {record : Except Exn α → Action F}
    (h : ∀ before, AnsweredBy svc before (record (answer before))) :
    Keeps (LogRecorded svc) (attempt answer record) :=
  fun s hs => hs.logged svc (h s.log)

theorem keeps_await {α : Type} {answer : List (Action F) → Except Exn α}
    {record : Except Exn α → Action F}
    (h : ∀ before, AnsweredBy svc before (record (answer before))) :
    Keeps (LogRecorded svc) (await answer record) :=
  keeps_bind (keeps_attempt svc h) (keeps_ofExcept svc)

theorem keeps_complete (tools : Option (List (ToolSpec F))) :
    Keeps (LogRecorded svc) (complete svc settings tools) := by
  apply keeps_bind keeps_get
  intro s
  apply keeps_bind (keeps_await svc (by intro before; rfl))
  intro response
  exact keeps_bind (keeps_update svc (by intro s; rfl)) fun _ => keeps_pure _

theorem keeps_finalCompletion : Keeps (LogRecorded svc) (finalCompletion svc settings) :=
  keeps_bind (keeps_update svc (by intro s; rfl)) fun _ => keeps_complete svc settings none

theorem keeps_callWithRetries (tc : ToolCall F) (began : ℚ) (left : ℕ) :
    Keeps (LogRecorded svc) (callWithRetries svc settings tc began left) := by
  have hattempt : Keeps (LogRecorded svc)
      (attempt (svc.call · tc.name tc.arguments settings.toolTimeoutSeconds)
        (.call tc.name tc.arguments settings.toolTimeoutSeconds)) :=
    keeps_attempt svc fun _ => rfl
  induction left with
  | zero =>
    rw [callWithRetries]
    apply keeps_bind hattempt
    intro result
    apply keeps_bind keeps_get
    intro s
    rcases result with (_ | _ | _ | _ | _) | _
    all_goals first | exact keeps_pure _ | exact keeps_throw _
  | succ left ih =>
    rw [callWithRetries]
    apply keeps_bind hattempt
    intro result
    apply keeps_bind keeps_get
    intro s
    rcases result with (_ | _ | _ | _ | _) | _
    all_goals first | exact ih | exact keeps_pure _ | exact keeps_throw _

theorem keeps_registerAndFormat (outcome : ToolOutcome F) :
    Keeps (LogRecorded svc) (registerAndFormat svc outcome) := by
  apply keeps_bind (keeps_ofExcept svc _)
  intro chunks
  split_ifs
  · exact keeps_pure _
  · apply keeps_bind keeps_get
    intro s
    apply keeps_bind (keeps_update svc (by intro s; rfl))
    intro _
    exact keeps_bind (keeps_render svc _) fun _ => keeps_pure _

theorem keeps_runTool (step : ℕ) (tc : ToolCall F) :
    Keeps (LogRecorded svc) (runTool svc settings step tc) := by
  have hclose : ∀ (trace : TraceStep F) (message : LLMMessage F) (event : AgentEvent F),
      Keeps (LogRecorded svc) (do addTrace trace; send message; emit event) := by
    intro trace message event
    apply keeps_bind (keeps_update svc (by intro s; rfl))
    intro _
    exact keeps_bind (keeps_update svc (by intro s; rfl)) fun _ => keeps_emit svc _
  apply keeps_bind (keeps_emit svc _)
  intro _
  apply keeps_bind keeps_get
  intro s
  apply keeps_bind (keeps_update svc (by intro s; rfl))
  intro _
  split_ifs
  · exact hclose _ _ _
  · apply keeps_bind keeps_get
    intro s
    apply keeps_bind (keeps_callWithRetries svc settings tc _ _)
    intro called
    exact keeps_bind (keeps_registerAndFormat svc _) fun _ => hclose _ _ _

theorem keeps_planStep (tools : List (ToolSpec F)) (step : ℕ) :
    Keeps (LogRecorded svc) (planStep svc settings tools step) := by
  apply keeps_bind (keeps_bind keeps_get fun s => keeps_await svc (by intro before; rfl))
  intro projected
  apply keeps_bind keeps_get
  intro s
  split_ifs
  · exact keeps_bind (keeps_finalCompletion svc settings) fun _ => keeps_pure _
  · apply keeps_bind (keeps_emit svc _)
    intro _
    apply keeps_bind (keeps_complete svc settings _)
    intro response
    apply keeps_bind (keeps_update svc (by intro s; rfl))
    intro _
    split
    · exact keeps_pure _
    · apply keeps_bind (keeps_update svc (by intro s; rfl))
      intro _
      apply keeps_bind (keeps_forM fun tc _ => keeps_runTool svc settings step tc)
      exact fun _ => keeps_pure _

theorem keeps_planLoop (tools : List (ToolSpec F)) (left step : ℕ) :
    Keeps (LogRecorded svc) (planLoop svc settings tools left step) := by
  induction left generalizing step with
  | zero => exact keeps_bind (keeps_finalCompletion svc settings) fun _ => keeps_pure _
  | succ left ih =>
    apply keeps_bind (keeps_planStep svc settings tools step)
    rintro (_ | ⟨text, reason⟩)
    · exact ih (step + 1)
    · exact keeps_pure _

theorem keeps_events (question : Text) (topK : Option ℤ) (filters : Option SearchFilters) :
    Keeps (LogRecorded svc) (events svc settings question topK filters) := by
  have hseed : Keeps (LogRecorded svc) (seed svc settings question topK filters) := by
    apply keeps_bind (keeps_emit svc _)
    intro _
    apply keeps_bind (keeps_await svc (by intro before; rfl))
    intro chunks
    apply keeps_bind (keeps_update svc (by intro s; rfl))
    intro _
    apply keeps_bind (keeps_await svc (by intro before; rfl))
    intro tools
    apply keeps_bind keeps_get
    intro s
    apply keeps_bind (keeps_render svc _)
    intro _
    exact keeps_bind (keeps_update svc (by intro s; rfl)) fun _ => keeps_pure _
  have hdeliver : ∀ text reason step, Keeps (LogRecorded svc)
      (deliver (F := F) text reason step) := by
    intro text reason step
    apply keeps_bind keeps_get
    intro s
    apply keeps_bind (keeps_ofExcept svc _)
    rintro ⟨cleaned, used⟩
    apply keeps_bind (keeps_forM fun _ _ => keeps_emit svc _)
    intro _
    apply keeps_bind (keeps_emit svc _)
    intro _
    exact keeps_bind (keeps_emit svc _) fun _ => keeps_emit svc _
  apply keeps_bind hseed
  intro tools
  apply keeps_bind (keeps_planLoop svc settings tools _ _)
  rintro ⟨text, reason, step⟩
  exact hdeliver text reason step

theorem run_recorded (question : Text) (topK : Option ℤ) (filters : Option SearchFilters) :
    LogRecorded svc (run svc settings question topK filters).2 := by
  have hstart : LogRecorded svc (start svc settings) := by
    intro before a h
    exact absurd h (by simp [start])
  have h := keeps_events svc settings question topK filters _ hstart
  rw [wp_iff] at h
  unfold run
  split
  · next s hs => exact h.1 _ _ hs
  · next e s hs => exact h.2 _ _ hs

end GroundedOps.Agent.Orchestrator
