import GroundedOps.Agent.CitationSoundness
import GroundedOps.Agent.EventProtocol
import GroundedOps.Agent.RecordedAnswers
import GroundedOps.McpClient.Client

/-!
# Tool failures

A request survives a call that times out, and a result whose chunk records can be
read. Anything else the session raises, and a record whose numbers do not convert,
ends the request without an answer. Whether a run ends well is decided by the
answers of the session, as long as retrieval and the model work.
-/

namespace GroundedOps.Agent

open Python

/-- The cited numbers of an answer are short enough to convert. -/
def ReadableAnswer (text : Text) : Prop := ∀ w, Cited text w → w.length ≤ maxStrDigits

theorem validateAndStrip_ok_iff (registry : CitationRegistry) (text : Text) :
    (∃ r, validateAndStrip text registry = .ok r) ↔ ReadableAnswer text := by
  constructor
  · rintro ⟨r, hr⟩ w hw
    exact (intDigits_decimal hw.1.1 hw.1.2).mp (validateAndStrip_readable hr w hw)
  · intro h
    obtain ⟨used, hr, -⟩ := validateAndStrip_ok registry fun w hw =>
      (intDigits_decimal hw.1.1 hw.1.2).mpr (h w hw)
    exact ⟨_, hr⟩

end GroundedOps.Agent

namespace GroundedOps.Agent.Orchestrator

open Python Llm Retrieval Program McpClient

variable {F : Type} {svc : Services F} {settings : Settings}

/-! ### Results that can be read -/

section Readable

variable (py : Interpreter F)

/-- The numbers of a record convert. -/
structure NumbersConvert (members : List (Text × Json F)) : Prop where
  charStart : ∃ n, (getOr py members "char_start".toList (.int 0)).toInt py = .ok n
  charEnd : ∃ n, (getOr py members "char_end".toList (.int 0)).toInt py = .ok n
  score : ∃ x, (getOr py members "score".toList (.float py.zero)).toFloat py = .ok x

/-- Every object with a chunk id has numbers that convert. -/
def RecordsConvert (items : List (Json F)) : Prop :=
  ∀ members, .obj members ∈ items → (Json.lookup "chunk_id".toList members).isSome →
    NumbersConvert py members

theorem chunkRecord_ok_iff (item : Json F) : (∃ chunk, chunkRecord py item = .ok chunk) ↔
    ∀ members, item = .obj members → (Json.lookup "chunk_id".toList members).isSome →
      NumbersConvert py members := by
  cases item with
  | obj members =>
    rw [chunkRecord]
    cases hid : Json.lookup "chunk_id".toList members with
    | none =>
      refine iff_of_true ⟨none, rfl⟩ ?_
      rintro _ ⟨⟩ hsome
      rw [hid] at hsome
      cases hsome
    | some chunkId =>
      simp only [exists_bind_ok]
      constructor
      · rintro ⟨m, hm, n, hn, x, hx, -⟩ _ ⟨⟩ -
        exact ⟨⟨m, hm⟩, ⟨n, hn⟩, ⟨x, hx⟩⟩
      · intro h
        obtain ⟨⟨m, hm⟩, ⟨n, hn⟩, ⟨x, hx⟩⟩ := h members rfl (by rw [hid]; rfl)
        exact ⟨m, hm, n, hn, x, hx, _, rfl⟩
  | _ =>
    refine iff_of_true ⟨none, rfl⟩ ?_
    rintro _ ⟨⟩

theorem chunkRecords_ok_iff (items : List (Json F)) :
    (∃ chunks, chunkRecords py items = .ok chunks) ↔ RecordsConvert py items := by
  induction items with
  | nil => exact iff_of_true ⟨[], rfl⟩ fun _ h => absurd h (by simp)
  | cons item items ih =>
    rw [chunkRecords, exists_bind_ok]
    constructor
    · rintro ⟨chunk, hchunk, hrest⟩ members hmem hid
      rw [exists_bind_ok] at hrest
      obtain ⟨chunks, hchunks, -⟩ := hrest
      rcases List.mem_cons.mp hmem with hitem | hmem
      · exact (chunkRecord_ok_iff py item).mp ⟨chunk, hchunk⟩ members hitem.symm hid
      · exact ih.mp ⟨chunks, hchunks⟩ members hmem hid
    · intro h
      obtain ⟨chunk, hchunk⟩ := (chunkRecord_ok_iff py item).mpr fun members hitem hid =>
        h members (by simp [hitem]) hid
      obtain ⟨chunks, hchunks⟩ := ih.mpr fun members hmem hid => h members (by simp [hmem]) hid
      exact ⟨chunk, hchunk, exists_bind_ok.mpr ⟨chunks, hchunks, _, rfl⟩⟩

def unwrapResult (data : Json F) : Json F :=
  match data with
  | .obj members => (Json.lookup "result".toList members).getD data
  | _ => data

/-- The list a tool result stands for, if it stands for one. -/
def resultItems (data : Json F) : Option (List (Json F)) :=
  match unwrapResult data with
  | .arr items => some items
  | _ => none

/-- The text of an outcome without structured data is no JSON or is decoded, and the records
of its data convert. -/
structure ReadableOutcome (outcome : ToolOutcome F) : Prop where
  decodes : outcome.structured = .null → ∀ e, py.loads outcome.text = .error e →
    e = .valueError ∨ e = .typeError
  converts : ∀ data items, outcomeData py outcome = .ok data → resultItems data = some items →
    RecordsConvert py items

theorem outcomeData_ok_iff (outcome : ToolOutcome F) :
    (∃ data, outcomeData py outcome = .ok data) ↔ (outcome.structured = .null →
      ∀ e, py.loads outcome.text = .error e → e = .valueError ∨ e = .typeError) := by
  unfold outcomeData
  cases hs : outcome.structured with
  | null =>
    cases hl : py.loads outcome.text with
    | ok data => exact iff_of_true ⟨data, rfl⟩ fun _ e he => by cases he
    | error e => cases e <;> simp
  | _ => exact iff_of_true ⟨_, rfl⟩ fun h => by cases h

theorem extractChunkRecords_ok_iff (outcome : ToolOutcome F) :
    (∃ chunks, extractChunkRecords py outcome = .ok chunks) ↔ ReadableOutcome py outcome := by
  have hextract : extractChunkRecords py outcome = (outcomeData py outcome >>= fun data =>
      match resultItems data with
      | some items => chunkRecords py items
      | none => .ok []) := by
    refine congrArg (outcomeData py outcome >>= ·) (funext fun data => ?_)
    change (match unwrapResult data with
      | .arr items => chunkRecords py items
      | _ => .ok []) = _
    unfold resultItems
    cases unwrapResult data <;> rfl
  rw [hextract, exists_bind_ok]
  constructor
  · rintro ⟨data, hdata, chunks, hchunks⟩
    refine ⟨(outcomeData_ok_iff py outcome).mp ⟨data, hdata⟩, ?_⟩
    intro data' items hdata' hitems
    rw [hdata] at hdata'
    cases hdata'
    rw [hitems] at hchunks
    exact (chunkRecords_ok_iff py items).mp ⟨chunks, hchunks⟩
  · rintro ⟨hdecodes, hconverts⟩
    obtain ⟨data, hdata⟩ := (outcomeData_ok_iff py outcome).mpr hdecodes
    refine ⟨data, hdata, ?_⟩
    cases hitems : resultItems data with
    | none => exact ⟨[], rfl⟩
    | some items => exact (chunkRecords_ok_iff py items).mpr (hconverts data items hdata hitems)

end Readable

/-! ### Calls of a run -/

/-- A text that starts with the words of a tool error is no JSON. -/
def RejectsToolErrors (py : Interpreter F) : Prop :=
  ∀ message, py.loads ("Tool error: ".toList ++ message) = .error .valueError

/-- A result after which the loop goes on. -/
def Contained (py : Interpreter F) : Except Exn (ToolOutcome F) → Prop
  | .ok outcome => ReadableOutcome py outcome
  | .error e => ∃ message, e = .toolError message

def CallsContained (py : Interpreter F) (log : List (Action F)) : Prop :=
  ∀ c ∈ toolCalls log, Contained py c.2

theorem callsContained_append {py : Interpreter F} {a b : List (Action F)} :
    CallsContained py (a ++ b) ↔ CallsContained py a ∧ CallsContained py b := by
  simp only [CallsContained, toolCalls_append, List.forall_mem_append]

theorem callsContained_of_eq {py : Interpreter F} {a b : List (Action F)}
    (h : toolCalls a = toolCalls b) : CallsContained py a ↔ CallsContained py b := by
  rw [CallsContained, CallsContained, h]

theorem readable_toolError {py : Interpreter F} (hpy : RejectsToolErrors py) (message : Text) :
    ReadableOutcome py ⟨"Tool error: ".toList ++ message, .null, true⟩ := by
  have hdata : outcomeData py ⟨"Tool error: ".toList ++ message, .null, true⟩ = .ok .null := by
    rw [outcomeData, hpy message]
  refine ⟨fun _ e he => ?_, fun data items h hitems => ?_⟩
  · rw [hpy message] at he
    cases he
    exact .inl rfl
  · rw [hdata] at h
    cases h
    cases hitems

/-- The attempts at a call are contained exactly if they end in an outcome that can be read. -/
theorem Attempts.contained {tc : ToolCall F} {left : ℕ} {calls : List (Action F)}
    {result : Except Exn (ToolOutcome F)} (h : Attempts settings tc left calls result)
    {py : Interpreter F} (hpy : RejectsToolErrors py) :
    CallsContained py calls ↔ ∃ outcome, result = .ok outcome ∧ ReadableOutcome py outcome := by
  induction h with
  | returned outcome => simp [CallsContained, Contained]
  | gaveUp message => simpa [CallsContained, Contained] using readable_toolError hpy message
  | raised hne => simpa [CallsContained, Contained] using hne
  | retried message _ ih => simpa [CallsContained, Contained] using ih

theorem Shown.readable {registry registry' : CitationRegistry} {outcome : ToolOutcome F}
    {content : Text} {shown : List (Action F)}
    (h : Shown svc registry outcome content registry' shown) :
    ReadableOutcome svc.py outcome := by
  rw [← extractChunkRecords_ok_iff]
  cases h with
  | plain hextract => exact ⟨_, hextract⟩
  | records hextract => exact ⟨_, hextract⟩

/-- The collaborator answered; of a tool call nothing is said. -/
def Answers : Action F → Prop
  | .retrieve _ _ _ result => result.isOk = true
  | .listTools result => result.isOk = true
  | .countTokens _ result => result.isOk = true
  | .complete _ result => result.isOk = true
  | _ => True

instance : DecidablePred (Answers (F := F))
  | .retrieve _ _ _ result => inferInstanceAs (Decidable (result.isOk = true))
  | .listTools result => inferInstanceAs (Decidable (result.isOk = true))
  | .countTokens _ result => inferInstanceAs (Decidable (result.isOk = true))
  | .complete _ result => inferInstanceAs (Decidable (result.isOk = true))
  | .emit _ => instDecidableTrue
  | .call _ _ _ _ => instDecidableTrue
  | .render _ => instDecidableTrue

/-- Seed retrieval, the tool list and the model never failed. -/
def Succeeded (log : List (Action F)) : Prop := ∀ a ∈ log, Answers a

theorem Succeeded.of_extends {s s' : Run F} (h : Succeeded s'.log) (hext : Extends s s') :
    Succeeded s.log := fun a ha => h a (hext.isPrefix.subset ha)

/-- The last request of a history failed. -/
theorem not_succeeded_last {log : List (Action F)} {a : Action F} (hfail : ¬ Answers a) :
    ¬ Succeeded (log ++ [a]) :=
  fun h => hfail (h a (List.mem_append_right _ (List.mem_singleton_self a)))

theorem not_succeeded_completed (tools : Option (List (ToolSpec F))) (s : Run F) (e : Exn) :
    ¬ Succeeded (completed settings tools s (.error e)).log :=
  not_succeeded_last Bool.false_ne_true

theorem Seeded.not_succeeded {question : Text} {topK : ℤ} {filters : Option SearchFilters}
    {s s' : Run F} {e : Exn} (h : Seeded question topK filters s (.error e) s') :
    ¬ Succeeded s'.log := by
  cases h with
  | retrieveFailed _ =>
    have hlog : (logged s [.emit .seeding, .retrieve question topK filters (.error e)]).log =
        (s.log ++ [.emit .seeding]) ++ [.retrieve question topK filters (.error e)] := by
      simp [logged]
    rw [hlog]
    exact not_succeeded_last Bool.false_ne_true
  | listFailed _ _ => exact not_succeeded_last Bool.false_ne_true

theorem toolCalls_forced (s : Run F) (result : Except Exn (LLMResponse F)) :
    toolCalls (forced settings s result).log = toolCalls s.log :=
  (toolCalls_completed none (told s (.user stopUsingTools)) result).1

section Runs

variable (hpy : RejectsToolErrors svc.py)
include hpy

/-- A tool call ends well exactly if its attempts are contained. -/
theorem ToolStep.contained {step : ℕ} {tc : ToolCall F} {s s' : Run F} {r : Except Exn Unit}
    (h : ToolStep svc settings step tc s r s') (hs : CallsContained svc.py s.log) :
    CallsContained svc.py s'.log ↔ r = .ok () := by
  cases h with
  | blocked _ =>
    refine iff_of_true ?_ rfl
    rwa [callsContained_of_eq (b := s.log) (by simp)]
  | answered _ _ hcalls hshown =>
    refine iff_of_true ?_ rfl
    refine callsContained_append.mpr ⟨hs, ?_⟩
    rw [callsContained_of_eq (b := _) (by simp [hshown.toolCalls]; rfl)]
    exact (hcalls.contained hpy).mpr ⟨_, rfl, hshown.readable⟩
  | @raised calls e _ hcalls =>
    refine iff_of_false (fun hcontained => ?_) (by simp)
    have hnew : CallsContained svc.py calls := by
      simpa [CallsContained] using (callsContained_append.mp hcontained).2
    obtain ⟨outcome, hresult, -⟩ := (hcalls.contained hpy).mp hnew
    cases hresult
  | @unreadable calls outcome e _ hcalls hextract =>
    refine iff_of_false (fun hcontained => ?_) (by simp)
    have hnew : CallsContained svc.py calls := by
      simpa [CallsContained] using (callsContained_append.mp hcontained).2
    obtain ⟨outcome', hresult, hreadable⟩ := (hcalls.contained hpy).mp hnew
    cases hresult
    obtain ⟨chunks, hchunks⟩ := (extractChunkRecords_ok_iff svc.py outcome).mpr hreadable
    rw [hextract] at hchunks
    cases hchunks

theorem ToolSteps.contained {step : ℕ} {tcs : List (ToolCall F)} {s s' : Run F}
    {r : Except Exn Unit} (h : ToolSteps svc settings step tcs s r s') :
    CallsContained svc.py s.log → (CallsContained svc.py s'.log ↔ r = .ok ()) := by
  induction h with
  | nil => exact fun hs => iff_of_true hs rfl
  | cons hstep _ ih => exact fun hs => ih ((hstep.contained hpy hs).mpr rfl)
  | stop hstep => exact fun hs => hstep.contained hpy hs

/-- As long as the collaborators answer, a step of the loop ends well exactly if the calls
made in it are contained. -/
theorem PlanStep.contained {tools : List (ToolSpec F)} {step : ℕ} {s s' : Run F}
    {r : Except Exn (Option (Text × StopReason))} (h : PlanStep svc settings tools step s r s')
    (hsucc : Succeeded s'.log) (hs : CallsContained svc.py s.log) :
    CallsContained svc.py s'.log ↔ ∃ v, r = .ok v := by
  have hcounted : ∀ result, CallsContained svc.py (counted tools s result).log := fun result => by
    rwa [callsContained_of_eq (toolCalls_counted tools s result).1]
  have hplanned : ∀ counts result, CallsContained svc.py
      (planned settings tools step (counted tools s counts) result).log := fun counts result => by
    rw [callsContained_of_eq (toolCalls_planned tools step _ result).1]
    exact hcounted counts
  cases h with
  | countFailed e =>
    exact absurd hsucc (not_succeeded_last Bool.false_ne_true)
  | overBudget final _ =>
    refine iff_of_true ?_ ⟨_, rfl⟩
    rw [callsContained_of_eq (toolCalls_forced _ _)]
    exact hcounted _
  | overBudgetFailed e _ => exact absurd hsucc (not_succeeded_completed none _ e)
  | planFailed e _ => exact absurd hsucc (not_succeeded_completed (some tools) _ e)
  | answered _ _ => exact iff_of_true (hplanned _ _) ⟨_, rfl⟩
  | called _ _ htools =>
    exact iff_of_true ((htools.contained hpy (hplanned _ _)).mpr rfl) ⟨_, rfl⟩
  | callFailed _ _ htools =>
    refine iff_of_false (fun hcontained => ?_) (by simp)
    cases (htools.contained hpy (hplanned _ _)).mp hcontained

theorem PlanLoop.contained {tools : List (ToolSpec F)} {left step : ℕ} {s s' : Run F}
    {r : Except Exn (Text × StopReason × ℕ)} (h : PlanLoop svc settings tools left step s r s') :
    Succeeded s'.log → CallsContained svc.py s.log →
      (CallsContained svc.py s'.log ↔ ∃ v, r = .ok v) := by
  induction h with
  | capped final =>
    intro _ hs
    refine iff_of_true ?_ ⟨_, rfl⟩
    rwa [callsContained_of_eq (toolCalls_forced _ _)]
  | cappedFailed e => exact fun hsucc => absurd hsucc (not_succeeded_completed none _ e)
  | failed hstep =>
    intro hsucc hs
    rw [hstep.contained hpy hsucc hs]
    simp
  | stopped hstep =>
    intro hsucc hs
    rw [hstep.contained hpy hsucc hs]
    simp
  | continued hstep hloop ih =>
    intro hsucc hs
    exact ih hsucc ((hstep.contained hpy (hsucc.of_extends hloop.extends) hs).mpr ⟨_, rfl⟩)

end Runs

theorem Answered.unique {log : List (Action F)} {text text' : Text} (h : Answered log text)
    (h' : Answered log text') : text = text' := by
  obtain ⟨request, response, hlast, rfl⟩ := h
  obtain ⟨request', response', hlast', rfl⟩ := h'
  rw [hlast] at hlast'
  cases hlast'
  rfl

/-! ### Whole runs -/

theorem callsContained_seeded {question : Text} {topK : ℤ} {filters : Option SearchFilters}
    {r : Except Exn (List (ToolSpec F))} {s : Run F}
    (h : Seeded question topK filters (start svc settings) r s) : CallsContained svc.py s.log := by
  intro c hc
  rw [h.tracked.1.calls] at hc
  simp at hc

/-- A run whose collaborators answer ends well exactly if its calls are contained and its
final text can be read. -/
theorem run_ok_iff (hpy : RejectsToolErrors svc.py) (question : Text) (topK : Option ℤ)
    (filters : Option SearchFilters)
    (hsucc : Succeeded (run svc settings question topK filters).2.log) :
    (run svc settings question topK filters).1 = .ok () ↔
      CallsContained svc.py (run svc settings question topK filters).2.log ∧
        ∀ text, Answered (run svc settings question topK filters).2.log text →
          ReadableAnswer text := by
  have h := run_finished svc settings question topK filters
  generalize (run svc settings question topK filters).1 = r at h ⊢
  generalize (run svc settings question topK filters).2 = s at h hsucc ⊢
  cases h with
  | seedFailed hseed => exact absurd hsucc hseed.not_succeeded
  | loopFailed hseed hloop =>
    have hloop' := hloop.contained hpy hsucc (callsContained_seeded hseed)
    refine iff_of_false (by simp) ?_
    rintro ⟨hcontained, -⟩
    obtain ⟨v, hv⟩ := hloop'.mp hcontained
    cases hv
  | @finished tools s₀ text reason step s₁ _ _ hseed hloop hdeliver =>
    obtain ⟨hanswered, -⟩ := hloop.progress text reason step rfl
    cases hdeliver with
    | unreadable hvalid =>
      refine iff_of_false (by simp) ?_
      rintro ⟨-, hreadable⟩
      obtain ⟨r, hr⟩ := (validateAndStrip_ok_iff s.registry text).mpr (hreadable text hanswered)
      rw [hvalid] at hr
      cases hr
    | @delivered cleaned used hvalid =>
      let events := (closing s₁ cleaned used reason step).map Action.emit
      have hsucc₁ : Succeeded s₁.log := fun a ha => hsucc a (List.mem_append_left _ ha)
      have hcontained := (hloop.contained hpy hsucc₁ (callsContained_seeded hseed)).mpr ⟨_, rfl⟩
      have hcompletions : completions (s₁.log ++ events) = completions s₁.log := by
        rw [completions_append, completions_closing, List.append_nil]
      refine iff_of_true rfl ⟨callsContained_append.mpr ⟨hcontained, ?_⟩, fun text' htext' => ?_⟩
      · rw [CallsContained, toolCalls_closing]
        simp
      · obtain ⟨request, response, hlast, htext'⟩ := htext'
        have hsame : text' = text :=
          Answered.unique ⟨request, response, hcompletions ▸ hlast, htext'⟩ hanswered
        rw [hsame]
        exact (validateAndStrip_ok_iff s₁.registry text).mp ⟨_, hvalid⟩

/-! ### Collaborators that fail end the run -/

theorem Succeeded.append {a b : List (Action F)} (ha : Succeeded a) (hb : Succeeded b) :
    Succeeded (a ++ b) := by
  intro x hx
  rcases List.mem_append.mp hx with hx | hx
  · exact ha x hx
  · exact hb x hx

theorem ToolAction.answers {a : Action F} (h : ToolAction a) : Answers a := by
  cases a with
  | call | render | emit => trivial
  | _ => cases h

theorem Succeeded.tools {step : ℕ} {tcs : List (ToolCall F)} {s s' : Run F} {r : Except Exn Unit}
    (hs : Succeeded s.log) (h : ToolSteps svc settings step tcs s r s') : Succeeded s'.log := by
  obtain ⟨seg, hlog, hseg⟩ := h.effect.log
  rw [hlog]
  exact hs.append fun a ha => (hseg a ha).answers

theorem Succeeded.counted {s : Run F} (h : Succeeded s.log) (tools : List (ToolSpec F)) (n : ℤ) :
    Succeeded (counted tools s (.ok n)).log :=
  h.append (List.forall_mem_singleton.mpr rfl)

theorem Succeeded.completed {s : Run F} (h : Succeeded s.log) (tools : Option (List (ToolSpec F)))
    (response : LLMResponse F) : Succeeded (completed settings tools s (.ok response)).log :=
  h.append (List.forall_mem_singleton.mpr rfl)

theorem Succeeded.planned {s : Run F} (h : Succeeded s.log) (tools : List (ToolSpec F)) (step : ℕ)
    (response : LLMResponse F) : Succeeded (planned settings tools step s (.ok response)).log :=
  Succeeded.completed (s := logged s [.emit (.planning step)])
    (h.append fun a ha => by rw [List.mem_singleton.mp ha]; trivial) (some tools) response

theorem Succeeded.forced {s : Run F} (h : Succeeded s.log) (response : LLMResponse F) :
    Succeeded (forced settings s (.ok response)).log :=
  Succeeded.completed (s := told s (.user stopUsingTools)) h none response

theorem PlanStep.succeeded {tools : List (ToolSpec F)} {step : ℕ} {s s' : Run F}
    {v : Option (Text × StopReason)} (h : PlanStep svc settings tools step s (.ok v) s')
    (hs : Succeeded s.log) : Succeeded s'.log := by
  cases h with
  | @overBudget projected final _ => exact (hs.counted tools projected).forced final
  | @answered projected response _ _ => exact (hs.counted tools projected).planned tools step response
  | @called projected response _ _ _ htools =>
    have hplanned : Succeeded (told (planned settings tools step (counted tools s (.ok projected))
        (.ok response)) (callTurn response)).log :=
      (hs.counted tools projected).planned tools step response
    exact hplanned.tools htools

theorem PlanLoop.succeeded {tools : List (ToolSpec F)} {left step : ℕ} {s s' : Run F}
    {r : Except Exn (Text × StopReason × ℕ)} (h : PlanLoop svc settings tools left step s r s') :
    Succeeded s.log → (∃ v, r = .ok v) → Succeeded s'.log := by
  induction h with
  | capped final => exact fun hs _ => hs.forced final
  | cappedFailed e =>
    rintro _ ⟨v, hv⟩
    cases hv
  | failed _ =>
    rintro _ ⟨v, hv⟩
    cases hv
  | stopped hstep => exact fun hs _ => hstep.succeeded hs
  | continued hstep _ ih => exact fun hs hr => ih (hstep.succeeded hs) hr

/-- In a run that ends well, all collaborators have answered. -/
theorem succeeded_of_ok {question : Text} {topK : Option ℤ} {filters : Option SearchFilters}
    (h : (run svc settings question topK filters).1 = .ok ()) :
    Succeeded (run svc settings question topK filters).2.log := by
  have hrun := run_finished svc settings question topK filters
  rw [h] at hrun
  generalize (run svc settings question topK filters).2 = s at hrun ⊢
  cases hrun with
  | finished hseed hloop hdeliver =>
    cases hseed with
    | ready chunks tools =>
      cases hdeliver with
      | @delivered cleaned used _ =>
        refine (hloop.succeeded ?_ ⟨_, rfl⟩).append ?_
        · simp [Succeeded, Answers, told, entered, logged, start, Except.isOk, Except.toBool]
        · intro a ha
          obtain ⟨event, -, rfl⟩ := List.mem_map.mp ha
          trivial

/-! ### The history records the answers of the executor -/

/-- Every call in the history has the result the executor gave at that point. -/
def CallsAnswered (svc : Services F) (s : Run F) : Prop :=
  ∀ before tool arguments timeout result,
    before ++ [.call tool arguments timeout result] <+: s.log →
      result = svc.call before tool arguments timeout

theorem run_callsAnswered (svc : Services F) (settings : Settings) (question : Text)
    (topK : Option ℤ) (filters : Option SearchFilters) :
    CallsAnswered svc (run svc settings question topK filters).2 :=
  fun before _ _ _ _ h => run_recorded svc settings question topK filters before _ h

/-! ### Answers of the session -/

/-- The session answered in time with a result that can be read, or it timed out. -/
def SafeAnswer (py : Interpreter F) : SessionAnswer F → Prop
  | .returned result =>
    ReadableOutcome py ⟨(normalizeCallResult result).text, (normalizeCallResult result).structured,
      (normalizeCallResult result).isError⟩
  | .timedOut => True
  | .raised e => ∃ message, e = .toolError message

theorem contained_executorCall (py : Interpreter F) (answer : SessionAnswer F) (name : Text)
    (timeout : ℕ) : Contained py (executorCall answer name timeout) ↔ SafeAnswer py answer := by
  cases answer with
  | returned result => rfl
  | timedOut => exact iff_of_true ⟨_, rfl⟩ trivial
  | raised e => rfl

/-- At every call of the history the session answers safely. -/
def SessionSafe (py : Interpreter F) (session : Session F) (log : List (Action F)) : Prop :=
  ∀ before tool arguments timeout result,
    before ++ [.call tool arguments timeout result] <+: log →
      SafeAnswer py (session before tool arguments timeout)

theorem mem_toolCalls {log : List (Action F)} {c : (Text × Json F) × Except Exn (ToolOutcome F)} :
    c ∈ toolCalls log ↔ ∃ before timeout, before ++ [.call c.1.1 c.1.2 timeout c.2] <+: log := by
  rw [toolCalls, List.mem_filterMap]
  constructor
  · rintro ⟨a, ha, hcall⟩
    obtain ⟨before, after, rfl⟩ := List.append_of_mem ha
    cases a with
    | call tool arguments timeout result =>
      cases hcall
      exact ⟨before, timeout, after, by simp⟩
    | _ => cases hcall
  · rintro ⟨before, timeout, after, rfl⟩
    exact ⟨.call c.1.1 c.1.2 timeout c.2, by simp, rfl⟩

theorem callsContained_iff_session {session : Session F} {s : Run F}
    (h : CallsAnswered (overSession svc session) s) :
    CallsContained svc.py s.log ↔ SessionSafe svc.py session s.log := by
  constructor
  · intro hcontained before tool arguments timeout result hbefore
    have hresult := hcontained ((tool, arguments), result) (mem_toolCalls.mpr ⟨_, _, hbefore⟩)
    rw [h before tool arguments timeout result hbefore] at hresult
    exact (contained_executorCall svc.py _ tool timeout).mp hresult
  · intro hsafe c hc
    obtain ⟨before, timeout, hbefore⟩ := mem_toolCalls.mp hc
    rw [h before _ _ timeout c.2 hbefore]
    exact (contained_executorCall svc.py _ _ timeout).mpr (hsafe _ _ _ _ _ hbefore)

/-- The run ends with its closing event, and every call of the model in it has one trace
step, one result event and one tool message. -/
def ToolsAnswered (result : Except Exn Unit) (s : Run F) : Prop :=
  result = .ok () ∧ ∃ rounds tokens sources data, Streamed s rounds tokens sources data

/-- Over any session, a run in which retrieval and the model work answers all its tool calls
exactly if the session answers each attempt safely and the final text can be read. -/
theorem tool_failures_contained_iff (svc : Services F) (session : Session F) (settings : Settings)
    (question : Text) (topK : Option ℤ) (filters : Option SearchFilters)
    (hpy : RejectsToolErrors svc.py)
    (hsucc : Succeeded (run (overSession svc session) settings question topK filters).2.log) :
    ToolsAnswered (run (overSession svc session) settings question topK filters).1
        (run (overSession svc session) settings question topK filters).2 ↔
      SessionSafe svc.py session
          (run (overSession svc session) settings question topK filters).2.log ∧
        ∀ text, Answered (run (overSession svc session) settings question topK filters).2.log text →
          ReadableAnswer text := by
  have hanswered := run_callsAnswered (overSession svc session) settings question topK filters
  have hsession : RejectsToolErrors (overSession svc session).py := hpy
  have hok := run_ok_iff hsession question topK filters hsucc
  have hcalls := callsContained_iff_session hanswered
  rw [← hcalls]
  refine Iff.trans ?_ hok
  constructor
  · rintro ⟨h, -⟩
    exact h
  · intro h
    exact ⟨h, run_streamed _ settings question topK filters h⟩

section Scripted

/-- A run whose session answers every call in this way. -/
def sessionRun (answer : SessionAnswer Unit) : Except Exn Unit × Run Unit :=
  run (overSession (scripted [outageChunk] searchThenAnswer rollbackOutcome) fun _ _ _ _ => answer)
    ⟨8, 6, 30000, 15, 2, 2000⟩ "why".toList none none

/-- A session that raises ends the request, although everything else works. -/
theorem session_error_aborts :
    Succeeded (sessionRun (.raised (.other "ClosedResourceError".toList))).2.log ∧
      (sessionRun (.raised (.other "ClosedResourceError".toList))).1 =
        .error (.other "ClosedResourceError".toList) ∧
      ¬ ToolsAnswered (sessionRun (.raised (.other "ClosedResourceError".toList))).1
        (sessionRun (.raised (.other "ClosedResourceError".toList))).2 := by
  have hresult : (sessionRun (.raised (.other "ClosedResourceError".toList))).1 =
      .error (.other "ClosedResourceError".toList) := by decide +kernel
  refine ⟨?_, hresult, ?_⟩
  · unfold Succeeded
    decide +kernel
  · rintro ⟨hok, -⟩
    rw [hresult] at hok
    cases hok

theorem tool_failures_contained_timedOut :
    ToolsAnswered (sessionRun .timedOut).1 (sessionRun .timedOut).2 ↔
      SessionSafe plainInterpreter (fun _ _ _ _ => .timedOut) (sessionRun .timedOut).2.log ∧
        ∀ text, Answered (sessionRun .timedOut).2.log text → ReadableAnswer text :=
  tool_failures_contained_iff (scripted [outageChunk] searchThenAnswer rollbackOutcome) _ _ _ _ _
    (fun _ => rfl) (by unfold Succeeded; decide +kernel)

end Scripted

end GroundedOps.Agent.Orchestrator
