import GroundedOps.Agent.CitationSoundness
import GroundedOps.Agent.OrchestratorRuns

/-!
# Citations point to records the model was shown

At the head of the loop the registry holds exactly the entries that were rendered,
and every rendered text is part of a message. The messages are all sent before a
run can end.
-/

namespace GroundedOps.Agent.Orchestrator

open Python Llm Retrieval

variable {F : Type} {svc : Services F} {settings : Settings}

/-- The entries written into a message. -/
@[simp] def renderOf : Action F → Option (List CitationEntry)
  | .render entries => some entries
  | _ => none

def renders (log : List (Action F)) : List (List CitationEntry) := log.filterMap renderOf

@[simp] theorem renders_nil : renders ([] : List (Action F)) = [] := rfl

@[simp] theorem renders_append (a b : List (Action F)) :
    renders (a ++ b) = renders a ++ renders b := List.filterMap_append

@[simp] theorem renders_cons (a : Action F) (log : List (Action F)) :
    renders (a :: log) = (renderOf a).toList ++ renders log := by
  rw [renders, List.filterMap_cons]
  cases renderOf a <;> rfl

theorem renders_closing (events : List (AgentEvent F)) : renders (events.map Action.emit) = [] := by
  simp [renders, List.filterMap_map, Function.comp_def]

/-- An entry some rendering shows. -/
def Rendered (log : List (Action F)) (e : CitationEntry) : Prop := ∃ entries ∈ renders log, e ∈ entries

/-- The rendering of these entries is part of a message. -/
def ShownIn (messages : List (LLMMessage F)) (entries : List CitationEntry) : Prop :=
  ∃ m ∈ messages, ∃ content, m.content = some content ∧ renderRecords entries <:+: content

/-- The rendering of these entries was part of a completion request. -/
def SentToModel (log : List (Action F)) (entries : List CitationEntry) : Prop :=
  ∃ request result, .complete request result ∈ log ∧ ShownIn request.messages entries

theorem ShownIn.append {messages : List (LLMMessage F)} {entries : List CitationEntry}
    (h : ShownIn messages entries) (new : List (LLMMessage F)) :
    ShownIn (messages ++ new) entries := by
  obtain ⟨m, hm, hcontent⟩ := h
  exact ⟨m, List.mem_append_left _ hm, hcontent⟩

/-- The invariant of the planning loop. -/
structure Cited (s : Run F) : Prop where
  registered : ∀ e, Rendered s.log e ↔ e ∈ s.registry.entries
  shown : ∀ entries ∈ renders s.log, ShownIn s.messages entries

/-- Steps that render nothing and only add messages keep the invariant. -/
theorem Cited.of_eq {s s' : Run F} (h : Cited s) (hrenders : renders s'.log = renders s.log)
    (hregistry : s'.registry = s.registry) {new : List (LLMMessage F)}
    (hmessages : s'.messages = s.messages ++ new) : Cited s' := by
  refine ⟨fun e => ?_, fun entries hentries => ?_⟩
  · rw [Rendered, hrenders, hregistry]
    exact h.registered e
  · rw [hmessages]
    exact (h.shown entries (hrenders ▸ hentries)).append new

theorem Attempts.renders {tc : ToolCall F} {left : ℕ} {calls : List (Action F)}
    {result : Except Exn (ToolOutcome F)} (h : Attempts settings tc left calls result) :
    renders calls = [] := by
  induction h with
  | retried message _ ih => simpa using ih
  | _ => rfl

/-- Old entries were rendered before; new ones are among the returned indices, so
they are rendered now. -/
theorem rendered_add {log : List (Action F)} {registry : CitationRegistry}
    (h : ∀ e, Rendered log e ↔ e ∈ registry.entries) (chunks : List (RetrievedChunk F))
    (e : CitationEntry) :
    (Rendered log e ∨
      e ∈ (registry.add chunks).1.entriesFor ((registry.add chunks).2.map Nat.cast)) ↔
      e ∈ (registry.add chunks).1.entries := by
  constructor
  · rintro (he | he)
    · exact registry.entries_subset_add chunks ((h e).mp he)
    · exact (CitationRegistry.mem_entriesFor.mp he).1
  · intro he
    obtain ⟨new, hnew, hindex⟩ := registry.add_spec chunks
    have hmem := he
    rw [hnew] at hmem
    rcases List.mem_append.mp hmem with hold | hnew
    · exact Or.inl ((h e).mpr hold)
    · exact Or.inr (CitationRegistry.mem_entriesFor.mpr ⟨he, List.mem_map_of_mem (hindex e hnew)⟩)

theorem ToolStep.cited {step : ℕ} {tc : ToolCall F} {s s' : Run F}
    (h : ToolStep svc settings step tc s (.ok ()) s') (hs : Cited s) : Cited s' := by
  cases h with
  | blocked _ => exact hs.of_eq (by simp) rfl rfl
  | answered _ _ hcalls hshown =>
    cases hshown with
    | plain _ => exact hs.of_eq (by simp [hcalls.renders]) rfl rfl
    | @records chunks entries _ _ hentries =>
      refine ⟨fun e => ?_, fun shown hmem => ?_⟩
      · rw [← rendered_add hs.registered chunks e, ← hentries]
        simp [Rendered, hcalls.renders, or_and_right, exists_or]
      · have hcase : shown ∈ renders s.log ∨ shown = entries := by
          simpa [hcalls.renders] using hmem
        rcases hcase with hold | rfl
        · exact (hs.shown shown hold).append _
        · exact ⟨_, List.mem_append_right _ (List.mem_singleton_self _), _, rfl,
            (List.suffix_append _ _).isInfix⟩

theorem ToolSteps.cited {step : ℕ} {tcs : List (ToolCall F)} {s s' : Run F}
    (h : ToolSteps svc settings step tcs s (.ok ()) s') (hs : Cited s) : Cited s' := by
  generalize hr : (Except.ok () : Except Exn Unit) = r at h
  induction h with
  | nil => exact hs
  | cons hstep _ ih => exact ih (hstep.cited hs) hr
  | stop _ => cases hr

theorem Cited.afterCount {s : Run F} (h : Cited s) (tools : List (ToolSpec F))
    (result : Except Exn ℤ) : Cited (counted tools s result) :=
  h.of_eq (by simp [counted, logged]) rfl (List.append_nil _).symm

theorem Cited.afterForced {s : Run F} (h : Cited s) (result : Except Exn (LLMResponse F)) :
    Cited (forced settings s result) := by
  cases result <;> exact h.of_eq (by simp [forced, completed, logged, told]) rfl rfl

theorem Cited.afterPlanned {s : Run F} (h : Cited s) (tools : List (ToolSpec F)) (step : ℕ)
    (response : LLMResponse F) : Cited (planned settings tools step s (.ok response)) :=
  h.of_eq (by simp [planned, completed, logged]) rfl (List.append_nil _).symm

/-- All messages have been sent. -/
def AllSent (s : Run F) : Prop :=
  ∃ request result, .complete request result ∈ s.log ∧ request.messages = s.messages

theorem allSent_forced (s : Run F) (response : LLMResponse F) :
    AllSent (forced settings s (.ok response)) :=
  ⟨_, _, List.mem_append_right _ (List.mem_singleton_self _), rfl⟩

theorem allSent_planned (tools : List (ToolSpec F)) (step : ℕ) (s : Run F)
    (response : LLMResponse F) : AllSent (planned settings tools step s (.ok response)) :=
  ⟨_, _, List.mem_append_right _ (List.mem_singleton_self _), rfl⟩

theorem PlanStep.cited {tools : List (ToolSpec F)} {step : ℕ} {s s' : Run F}
    {next : Option (Text × StopReason)} (h : PlanStep svc settings tools step s (.ok next) s')
    (hs : Cited s) : Cited s' ∧ (next ≠ none → AllSent s') := by
  cases h with
  | overBudget final _ =>
    exact ⟨(hs.afterCount tools _).afterForced _, fun _ => allSent_forced _ _⟩
  | answered _ _ =>
    exact ⟨(hs.afterCount tools _).afterPlanned tools step _, fun _ => allSent_planned _ _ _ _⟩
  | @called projected response _ _ _ htools =>
    have hplanned : Cited (planned settings tools step _ (.ok response)) :=
      (hs.afterCount tools (.ok projected)).afterPlanned tools step response
    exact ⟨htools.cited (hplanned.of_eq rfl rfl rfl), fun hnone => absurd rfl hnone⟩

theorem PlanLoop.cited {tools : List (ToolSpec F)} {left step : ℕ} {s s' : Run F}
    {value : Text × StopReason × ℕ}
    (h : PlanLoop svc settings tools left step s (.ok value) s') (hs : Cited s) :
    Cited s' ∧ AllSent s' := by
  generalize hr : (Except.ok value : Except Exn (Text × StopReason × ℕ)) = r at h
  induction h with
  | capped final => exact ⟨hs.afterForced _, allSent_forced _ _⟩
  | stopped hstep =>
    obtain ⟨hcited, hsent⟩ := hstep.cited hs
    exact ⟨hcited, hsent (by simp)⟩
  | continued hstep _ ih => exact ih (hstep.cited hs).1 hr
  | cappedFailed e => cases hr
  | failed hstep => cases hr

theorem Seeded.cited {question : Text} {topK : ℤ} {filters : Option SearchFilters}
    {tools : List (ToolSpec F)} {s : Run F}
    (h : Seeded question topK filters (start svc settings) (.ok tools) s) : Cited s := by
  cases h with
  | ready chunks _ =>
    refine ⟨fun e => by simp [Rendered, logged, told, entered, start], fun entries hentries => ?_⟩
    have hentries : entries = (CitationRegistry.empty.add chunks).1.entries := by
      simpa [logged, told, entered, start] using hentries
    rw [hentries]
    exact ⟨_, List.mem_singleton_self _, _, rfl, renderForPrompt_infix_fill agentFrame question _⟩

/-! ### The delivered citations -/

theorem validated_used {text cleaned : Text} {registry : CitationRegistry} {used : List ℕ}
    (h : validateAndStrip text registry = .ok (cleaned, used)) :
    used.Pairwise (· < ·) ∧ ∀ i ∈ used, registry.hasIndex i = true := by
  obtain ⟨used', hr, hsorted, hmem⟩ := validateAndStrip_ok registry
    fun w hw => validateAndStrip_readable h w hw
  obtain ⟨-, rfl⟩ : _ = cleaned ∧ used' = used := by simpa using hr.symm.trans h
  exact ⟨hsorted, fun i hi => ((hmem i).mp hi).choose_spec.2.2⟩

/-- The entries of valid indices, in order of the registry, carry exactly these indices. -/
theorem map_index_filter {registry : CitationRegistry} {used : List ℕ}
    (hsorted : used.Pairwise (· < ·)) (hheld : ∀ i ∈ used, registry.hasIndex i = true) :
    (registry.entries.filter fun e => used.contains e.index).map CitationEntry.index = used := by
  have hentries : (registry.entries.map CitationEntry.index).Pairwise (· < ·) := by
    rw [registry.map_index_entries]
    exact List.pairwise_lt_range'
  have hfilter := hentries.sublist (List.filter_sublist.map CitationEntry.index :
    ((registry.entries.filter fun e => used.contains e.index).map CitationEntry.index).Sublist _)
  refine hfilter.eq_of_mem_iff hsorted fun i => ?_
  simp only [List.mem_map, List.mem_filter, List.contains_iff_mem]
  constructor
  · rintro ⟨e, ⟨-, he⟩, rfl⟩
    exact he
  · intro hi
    obtain ⟨e, he, rfl⟩ := CitationRegistry.hasIndex_iff.mp (hheld i hi)
    exact ⟨e, ⟨he, hi⟩, rfl⟩

/-- What a finished run says about its citations. -/
structure CitationsShown (s : Run F) : Prop where
  held_iff : ∀ i : ℕ, s.registry.hasIndex i = true ↔
    ∃ entries ∈ renders s.log, (∃ e ∈ entries, e.index = i) ∧ SentToModel s.log entries
  consistent : ∀ e e', Rendered s.log e → Rendered s.log e' → e.index = e'.index → e = e'
  distinct : ∀ e e', Rendered s.log e → Rendered s.log e' → e.chunkId ≠ e'.chunkId →
    e.index ≠ e'.index
  delivered : ∃ data sources, .emit (.done data) ∈ s.log ∧ .emit (.sources sources) ∈ s.log
  sources : ∀ data sources, .emit (.done data) ∈ s.log → .emit (.sources sources) ∈ s.log →
    data.usedIndices.Pairwise (· < ·) ∧ ∃ shown : List CitationEntry, sources = shown.map Source.ofEntry ∧
      shown.map CitationEntry.index = data.usedIndices ∧ ∀ e ∈ shown, Rendered s.log e

/-- Every citation of a finished run points to a record the model was shown under that
number. -/
theorem citations_shown (svc : Services F) (settings : Settings) (question : Text)
    (topK : Option ℤ) (filters : Option SearchFilters)
    (hok : (run svc settings question topK filters).1 = .ok ()) :
    CitationsShown (run svc settings question topK filters).2 := by
  have h := run_finished svc settings question topK filters
  rw [hok] at h
  generalize (run svc settings question topK filters).2 = s at h ⊢
  cases h with
  | @finished tools s₀ text reason step s₁ _ _ hseed hloop hdeliver =>
    cases hdeliver with
    | @delivered cleaned used hvalid =>
      obtain ⟨hcited, request, result, hsent, hmessages⟩ := hloop.cited hseed.cited
      obtain ⟨hsorted, hheld⟩ := validated_used hvalid
      have hinLoop := PlanLoop.inLoop hseed hloop
      let events := (closing s₁ cleaned used reason step).map Action.emit
      have hrenders : renders (s₁.log ++ events) = renders s₁.log := by
        rw [renders_append, renders_closing, List.append_nil]
      have hrendered : ∀ e, Rendered (s₁.log ++ events) e ↔ e ∈ s₁.registry.entries := fun e => by
        rw [Rendered, hrenders]
        exact hcited.registered e
      have hshown : ∀ entries ∈ renders s₁.log, SentToModel (s₁.log ++ events) entries :=
        fun entries he =>
          ⟨request, result, List.mem_append_left _ hsent, hmessages ▸ hcited.shown entries he⟩
      refine ⟨fun i => ?_, fun e e' he he' hi => ?_, fun e e' he he' hid hi => ?_, ?_, ?_⟩
      · rw [CitationRegistry.hasIndex_iff]
        constructor
        · rintro ⟨e, he, hi⟩
          obtain ⟨entries, hentries, hmem⟩ := (hcited.registered e).mpr he
          exact ⟨entries, hrenders ▸ hentries, ⟨e, hmem, hi⟩, hshown entries hentries⟩
        · rintro ⟨entries, hentries, ⟨e, hmem, hi⟩, -⟩
          exact ⟨e, (hrendered e).mp ⟨entries, hentries, hmem⟩, hi⟩
      · exact CitationRegistry.index_injective ((hrendered e).mp he) ((hrendered e').mp he') hi
      · exact hid (congrArg CitationEntry.chunkId (CitationRegistry.index_injective
          ((hrendered e).mp he) ((hrendered e').mp he') hi))
      · exact ⟨_, _, List.mem_append_right _ (List.mem_map_of_mem (done_mem_closing.mpr rfl)),
          List.mem_append_right _ (List.mem_map_of_mem (sources_mem_closing.mpr rfl))⟩
      · intro data sources hdata hsources
        have hdone := done_mem_closing.mp (mem_closing hinLoop (by simp [LoopEvent]) hdata)
        have hsrc := sources_mem_closing.mp (mem_closing hinLoop (by simp [LoopEvent]) hsources)
        rw [hdone]
        refine ⟨hsorted, _, hsrc, map_index_filter hsorted hheld, fun e he => ?_⟩
        exact (hrendered e).mpr (List.mem_filter.mp he).1

section Scripted

/-- Collaborators with fixed chunks and a fixed tool outcome, and a model that gives its
replies one after the other. -/
def scripted (chunks : List (RetrievedChunk Unit)) (replies : List (LLMResponse Unit))
    (outcome : ToolOutcome Unit) : Services Unit where
  py := plainInterpreter
  modelName := "fake".toList
  retrieve _ _ _ _ := .ok chunks
  listTools _ := .ok []
  countTokens _ _ := .ok 100
  complete log _ :=
    let made := (log.filterMap fun a =>
      match a with
      | .complete request _ => some request
      | _ => none).length
    (replies[made]?).elim (.error .valueError) .ok
  call _ _ _ _ := .ok outcome
  perfCounter _ := 0

def outageChunk : RetrievedChunk Unit where
  chunkId := "c1".toList
  docId := "DOC-1".toList
  sourceType := "postmortem".toList
  title := "Payments outage".toList
  content := "payments deployment regression caused a P1 outage".toList
  charStart := 0
  charEnd := 50
  score := ()
  retriever := "rrf".toList

/-- A search result with one new chunk. -/
def rollbackOutcome : ToolOutcome Unit where
  text := "one record".toList
  structured := .arr [.obj [("chunk_id".toList, .str "c2".toList),
    ("snippet".toList, .str "rolled back".toList)]]
  isError := false

/-- A search, then an answer that cites what it found. -/
def searchThenAnswer : List (LLMResponse Unit) :=
  [{ text := []
     toolCalls := [⟨"t1".toList, "search_records".toList,
       .obj [("query".toList, .str "rollback".toList)]⟩]
     usage := ⟨20, 10⟩ },
   { text := "The deployment was rolled back [2].".toList
     usage := ⟨30, 15⟩ }]

theorem citations_shown_scripted :
    CitationsShown (run (scripted [outageChunk] searchThenAnswer rollbackOutcome)
      ⟨8, 6, 30000, 15, 2, 2000⟩ "why".toList none none).2 :=
  citations_shown _ _ _ _ _ (by decide +kernel)

end Scripted

end GroundedOps.Agent.Orchestrator
