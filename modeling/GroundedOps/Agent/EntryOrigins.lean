import GroundedOps.Agent.GroundedAnswers
import GroundedOps.Agent.RecordedAnswers

/-!
# Where the entries of a run come from

Chunks enter the registry when they are retrieved and when they are read from the outcome of a
tool. The history keeps both, so every entry of a run goes back to an answer of a collaborator.
-/

namespace GroundedOps.Agent.Orchestrator

open Python Llm Retrieval

variable {F : Type} {svc : Services F} {settings : Settings}

/-- What a call that was given up is taken for. -/
def givenUp (message : Text) : ToolOutcome F := ⟨"Tool error: ".toList ++ message, .null, true⟩

/-- The history accounts for the chunk. -/
inductive Origin (svc : Services F) (log : List (Action F)) (c : RetrievedChunk F) : Prop
  | retrieved {question topK filters chunks} :
      .retrieve question topK filters (.ok chunks) ∈ log → c ∈ chunks → Origin svc log c
  | called {tool arguments timeout outcome chunks} :
      .call tool arguments timeout (.ok outcome) ∈ log →
      extractChunkRecords svc.py outcome = .ok chunks → c ∈ chunks → Origin svc log c
  | gaveUp {message chunks} : extractChunkRecords svc.py (givenUp message) = .ok chunks →
      c ∈ chunks → Origin svc log c

theorem Origin.mono {log log' : List (Action F)} {c : RetrievedChunk F} (h : Origin svc log c)
    (hlog : log ⊆ log') : Origin svc log' c := by
  cases h with
  | retrieved hmem hc => exact .retrieved (hlog hmem) hc
  | called hmem hchunks hc => exact .called (hlog hmem) hchunks hc
  | gaveUp hchunks hc => exact .gaveUp hchunks hc

/-- Every entry of a recorded history has the answer of its collaborator. -/
theorem LogRecorded.of_mem {s : Run F} (h : LogRecorded svc s) {a : Action F} (ha : a ∈ s.log) :
    ∃ before, AnsweredBy svc before a := by
  obtain ⟨before, after, hlog⟩ := List.append_of_mem ha
  refine ⟨before, h before a ⟨after, ?_⟩⟩
  rw [hlog, List.append_assoc, List.singleton_append]

/-- The invariant of a run. -/
def Accounted (svc : Services F) (s : Run F) : Prop :=
  ∀ e ∈ s.registry.entries, ∃ c, Origin svc s.log c ∧ e = CitationEntry.ofChunk e.index c

theorem Accounted.of_eq {s s' : Run F} (h : Accounted svc s)
    (hregistry : s'.registry = s.registry) (hlog : s.log ⊆ s'.log) : Accounted svc s' := by
  intro e he
  rw [hregistry] at he
  obtain ⟨c, hc, hentry⟩ := h e he
  exact ⟨c, hc.mono hlog, hentry⟩

/-- Chunks that the new history accounts for keep the invariant. -/
theorem Accounted.add {s s' : Run F} (h : Accounted svc s) {chunks : List (RetrievedChunk F)}
    (hregistry : s'.registry = (s.registry.add chunks).1) (hlog : s.log ⊆ s'.log)
    (hchunks : ∀ c ∈ chunks, Origin svc s'.log c) : Accounted svc s' := by
  intro e he
  rw [hregistry] at he
  rcases exists_chunk_of_mem_add he with hold | ⟨c, hc, hentry⟩
  · obtain ⟨c, hc, hentry⟩ := h e hold
    exact ⟨c, hc.mono hlog, hentry⟩
  · exact ⟨c, hchunks c hc, hentry⟩

/-! ### The steps -/

/-- An outcome is an answer of the collaborator, or the last failure of a call. -/
theorem Attempts.outcome_cases {tc : ToolCall F} {left : ℕ} {calls : List (Action F)}
    {outcome : ToolOutcome F} (h : Attempts settings tc left calls (.ok outcome)) :
    .call tc.name tc.arguments settings.toolTimeoutSeconds (.ok outcome) ∈ calls ∨
      ∃ message, outcome = givenUp message := by
  generalize hr : (Except.ok outcome : Except Exn (ToolOutcome F)) = r at h
  induction h with
  | returned outcome' =>
    cases hr
    exact .inl (List.mem_singleton_self _)
  | gaveUp message =>
    cases hr
    exact .inr ⟨message, rfl⟩
  | raised => cases hr
  | retried message _ ih =>
    rcases ih hr with hmem | hmessage
    · exact .inl (List.mem_cons_of_mem _ hmem)
    · exact .inr hmessage

theorem ToolStep.accounted {step : ℕ} {tc : ToolCall F} {s s' : Run F}
    (h : ToolStep svc settings step tc s (.ok ()) s') (hs : Accounted svc s) :
    Accounted svc s' := by
  cases h with
  | blocked _ => exact hs.of_eq rfl (List.subset_append_left _ _)
  | @answered calls outcome _ _ _ _ _ hcalls hshown =>
    cases hshown with
    | plain _ => exact hs.of_eq rfl (List.subset_append_left _ _)
    | @records chunks _ hchunks _ _ =>
      apply hs.add rfl (List.subset_append_left _ _)
      intro c hc
      rcases hcalls.outcome_cases with hmem | ⟨message, rfl⟩
      · apply Origin.called _ hchunks hc
        · exact tc.name
        · exact tc.arguments
        · exact settings.toolTimeoutSeconds
        · simp [hmem]
      · exact .gaveUp hchunks hc

theorem ToolSteps.accounted {step : ℕ} {tcs : List (ToolCall F)} {s s' : Run F}
    (h : ToolSteps svc settings step tcs s (.ok ()) s') (hs : Accounted svc s) :
    Accounted svc s' := by
  generalize hr : (Except.ok () : Except Exn Unit) = r at h
  induction h with
  | nil => exact hs
  | cons hstep _ ih => exact ih (hstep.accounted hs) hr
  | stop _ => cases hr

theorem Accounted.afterCount {s : Run F} (h : Accounted svc s) (tools : List (ToolSpec F))
    (result : Except Exn ℤ) : Accounted svc (counted tools s result) :=
  h.of_eq rfl (List.subset_append_left _ _)

theorem Accounted.afterForced {s : Run F} (h : Accounted svc s)
    (result : Except Exn (LLMResponse F)) : Accounted svc (forced settings s result) := by
  cases result <;> exact h.of_eq rfl (List.subset_append_left _ _)

theorem Accounted.afterPlanned {s : Run F} (h : Accounted svc s) (tools : List (ToolSpec F))
    (step : ℕ) (response : LLMResponse F) :
    Accounted svc (planned settings tools step s (.ok response)) := by
  have hlog : s.log ⊆ (planned settings tools step s (.ok response)).log := by
    intro a ha
    simp [planned, completed, logged, ha]
  exact h.of_eq rfl hlog

theorem PlanStep.accounted {tools : List (ToolSpec F)} {step : ℕ} {s s' : Run F}
    {next : Option (Text × StopReason)} (h : PlanStep svc settings tools step s (.ok next) s')
    (hs : Accounted svc s) : Accounted svc s' := by
  cases h with
  | overBudget final _ => exact (hs.afterCount tools _).afterForced _
  | answered _ _ => exact (hs.afterCount tools _).afterPlanned tools step _
  | @called projected response _ _ _ htools =>
    have hplanned : Accounted svc (planned settings tools step _ (.ok response)) :=
      (hs.afterCount tools (.ok projected)).afterPlanned tools step response
    exact htools.accounted (hplanned.of_eq rfl (List.Subset.refl _))

theorem PlanLoop.accounted {tools : List (ToolSpec F)} {left step : ℕ} {s s' : Run F}
    {value : Text × StopReason × ℕ}
    (h : PlanLoop svc settings tools left step s (.ok value) s') (hs : Accounted svc s) :
    Accounted svc s' := by
  generalize hr : (Except.ok value : Except Exn (Text × StopReason × ℕ)) = r at h
  induction h with
  | capped final => exact hs.afterForced _
  | stopped hstep => exact hstep.accounted hs
  | continued hstep _ ih => exact ih (hstep.accounted hs) hr
  | cappedFailed e => cases hr
  | failed hstep => cases hr

theorem Seeded.accounted {question : Text} {topK : ℤ} {filters : Option SearchFilters}
    {tools : List (ToolSpec F)} {s : Run F}
    (h : Seeded question topK filters (start svc settings) (.ok tools) s) : Accounted svc s := by
  have hempty : Accounted svc (start svc settings) := by
    intro e he
    cases he
  cases h with
  | ready chunks _ =>
    apply hempty.add rfl (List.nil_subset _)
    intro c hc
    apply Origin.retrieved _ hc
    · exact question
    · exact topK
    · exact filters
    · simp [told, logged, entered]

/-! ### The sources of a run -/

/-- Where a source comes from, and that it was shown. -/
structure Traced (svc : Services F) (log : List (Action F)) (s : Source) : Prop where
  entry : ∃ e entries, s = Source.ofEntry e ∧ e ∈ entries ∧ SentToModel log entries ∧
    ∃ c, Origin svc log c ∧ e = CitationEntry.ofChunk e.index c

/-- Sources are delivered by finished runs only, and each of them goes back to a chunk that a
collaborator gave. -/
theorem traced_of_sources {question : Text} {topK : ℤ} {filters : Option SearchFilters}
    {r : Except Exn Unit} {s : Run F} (h : Finished svc settings question topK filters r s)
    {sources : List Source} (hsources : .emit (.sources sources) ∈ s.log) :
    ∀ source ∈ sources, Traced svc s.log source := by
  have houtside : ∀ s' : Run F, (∀ a ∈ s'.log, LoopAction a) →
      .emit (.sources sources) ∉ s'.log := by
    intro s' hloop hmem
    exact absurd (hloop _ hmem _ rfl) (by simp [LoopEvent])
  cases h with
  | seedFailed hseed =>
    cases hseed <;> simp [logged, entered, start] at hsources
  | loopFailed hseed hloop => exact absurd hsources (houtside _ (PlanLoop.inLoop hseed hloop))
  | @finished tools s₀ text reason step s₁ _ _ hseed hloop hdeliver =>
    cases hdeliver with
    | unreadable _ => exact absurd hsources (houtside _ (PlanLoop.inLoop hseed hloop))
    | @delivered cleaned used hvalid =>
      have hinLoop := PlanLoop.inLoop hseed hloop
      have hclosing := mem_closing hinLoop (by simp [LoopEvent]) hsources
      obtain rfl := sources_mem_closing.mp hclosing
      obtain ⟨hcited, request, result, hsent, hmessages⟩ := hloop.cited hseed.cited
      have haccounted := hloop.accounted hseed.accounted
      intro source hsource
      obtain ⟨e, he, rfl⟩ := List.mem_map.mp hsource
      have hentry := List.mem_of_mem_filter he
      obtain ⟨entries, hentries, hmem⟩ := (hcited.registered e).mpr hentry
      obtain ⟨c, hc, hchunk⟩ := haccounted e hentry
      refine ⟨e, entries, rfl, hmem, ?_, c, hc.mono (List.subset_append_left _ _), hchunk⟩
      exact ⟨request, result, List.mem_append_left _ hsent, hmessages ▸ hcited.shown _ hentries⟩

end GroundedOps.Agent.Orchestrator
