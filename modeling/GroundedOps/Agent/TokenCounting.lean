import GroundedOps.Agent.ToolFailures
import GroundedOps.Ingestion.SpecialTokens
import GroundedOps.Llm.OpenAIProvider

/-!
# Special tokens in documents and conversations

Documents are encoded to size their chunks, conversations to count their tokens, and both with
the default arguments. A literal of a special token in a document ends the ingestion of its
batch; in a question or a tool result it ends the run.
-/

namespace GroundedOps.Agent.Orchestrator

open Python Llm Retrieval Ingestion

variable {F : Type}

def countRequest (py : Interpreter F) (encode : Text → Except Exn (List ℕ)) (request : Request F) :
    Except Exn ℤ := do
  let n ← OpenAI.countTokens py encode request.messages (some request.system) request.tools
  return n

/-- Collaborators whose model counts tokens with this encoding. -/
def countingWith (svc : Services F) (encode : Text → Except Exn (List ℕ)) : Services F :=
  { svc with countTokens := fun _ request => countRequest svc.py encode request }

/-- The texts that are encoded for a request. -/
def requestTexts (py : Interpreter F) (request : Request F) : List Text :=
  OpenAI.countedTexts py request.messages (some request.system) request.tools

/-- No literal is in a text that the run counts. -/
def CountsPlain (special : SpecialTokens) (py : Interpreter F) (log : List (Action F)) : Prop :=
  ∀ request result, .countTokens request result ∈ log →
    ∀ t ∈ requestTexts py request, ¬ special.OccursIn t

/-! ### What is counted -/

theorem PlanStep.counts {svc : Services F} {settings : Settings} {tools : List (ToolSpec F)}
    {step : ℕ} {s s' : Run F} {r : Except Exn (Option (Text × StopReason))}
    (h : PlanStep svc settings tools step s r s') :
    ∃ result, .countTokens ⟨agentSystem, s.messages, some tools, none⟩ result ∈ s'.log := by
  have hcounted : ∀ result,
      .countTokens ⟨agentSystem, s.messages, some tools, none⟩ result ∈ (counted tools s result).log :=
    fun result => List.mem_append_right _ (List.mem_singleton_self _)
  cases h with
  | countFailed e => exact ⟨_, hcounted _⟩
  | overBudget final _ => exact ⟨_, (extends_forced _ _).isPrefix.subset (hcounted _)⟩
  | overBudgetFailed e _ => exact ⟨_, (extends_forced _ _).isPrefix.subset (hcounted _)⟩
  | planFailed e _ => exact ⟨_, (extends_planned _ _ _ _).isPrefix.subset (hcounted _)⟩
  | answered _ _ => exact ⟨_, (extends_planned _ _ _ _).isPrefix.subset (hcounted _)⟩
  | @called projected _ _ _ _ htools =>
    refine ⟨.ok projected, htools.effect.extends.isPrefix.subset ?_⟩
    exact (extends_planned _ _ _ _).isPrefix.subset (hcounted _)
  | @callFailed projected _ _ _ _ _ htools =>
    refine ⟨.ok projected, htools.effect.extends.isPrefix.subset ?_⟩
    exact (extends_planned _ _ _ _).isPrefix.subset (hcounted _)

theorem PlanLoop.counts {svc : Services F} {settings : Settings} {tools : List (ToolSpec F)}
    {left step : ℕ} {s s' : Run F} {r : Except Exn (Text × StopReason × ℕ)}
    (h : PlanLoop svc settings tools left step s r s') (hleft : left ≠ 0) :
    ∃ result, .countTokens ⟨agentSystem, s.messages, some tools, none⟩ result ∈ s'.log := by
  cases h with
  | capped final => exact absurd rfl hleft
  | cappedFailed e => exact absurd rfl hleft
  | failed hstep => exact hstep.counts
  | stopped hstep => exact hstep.counts
  | continued hstep hloop =>
    obtain ⟨result, hmem⟩ := hstep.counts
    exact ⟨result, hloop.extends.isPrefix.subset hmem⟩

/-- A run that takes a step and ends well has counted the opening message. -/
theorem question_counted {svc : Services F} {settings : Settings} {question : Text}
    {topK : Option ℤ} {filters : Option SearchFilters} (hsteps : settings.maxAgentSteps ≠ 0)
    (hok : (run svc settings question topK filters).1 = .ok ()) :
    ∃ request result registry,
      .countTokens request result ∈ (run svc settings question topK filters).2.log ∧
        .user (buildAgentPrompt question registry) ∈ request.messages := by
  have hrun := run_finished svc settings question topK filters
  rw [hok] at hrun
  generalize (run svc settings question topK filters).2 = s at hrun ⊢
  cases hrun with
  | finished hseed hloop hdeliver =>
    obtain ⟨result, hmem⟩ := hloop.counts hsteps
    cases hseed with
    | ready chunks tools =>
      cases hdeliver with
      | delivered _ =>
        exact ⟨_, result, _, List.mem_append_left _ hmem,
          List.mem_append_right _ (List.mem_singleton_self _)⟩

theorem mem_requestTexts {py : Interpreter F} {request : Request F} {text : Text}
    (h : .user text ∈ request.messages) : text ∈ requestTexts py request := by
  apply List.mem_append_left
  apply List.mem_append_right
  rw [List.mem_flatMap]
  exact ⟨_, h, List.mem_cons_self⟩

theorem occursIn_buildAgentPrompt {special : SpecialTokens} {question : Text}
    (h : special.OccursIn question) (registry : CitationRegistry) :
    special.OccursIn (buildAgentPrompt question registry) := by
  obtain ⟨s, hs, hinside⟩ := h
  have hhead : question <:+: agentFrame.head question := List.infix_append questionLabel question _
  have hfill : agentFrame.head question <+: buildAgentPrompt question registry :=
    (List.prefix_append _ _).trans (List.prefix_append _ _)
  exact ⟨s, hs, (hinside.trans hhead).trans hfill.isInfix⟩

section Runs

variable {special : SpecialTokens} {encode : Text → Except Exn (List ℕ)}
  (h : Tiktoken special encode)
include h

theorem encode_ok_iff (text : Text) :
    (∃ tokens, encode text = .ok tokens) ↔ ¬ special.OccursIn text := by
  constructor
  · rintro ⟨tokens, htokens⟩ hoccurs
    rw [h.rejects text hoccurs] at htokens
    cases htokens
  · exact h.encodes text

theorem countTokens_ok_iff (py : Interpreter F) (messages : List (LLMMessage F))
    (system : Option Text) (tools : Option (List (ToolSpec F))) :
    (∃ n, OpenAI.countTokens py encode messages system tools = .ok n) ↔
      ∀ t ∈ OpenAI.countedTexts py messages system tools, ¬ special.OccursIn t := by
  rw [OpenAI.countTokens_ok_iff]
  simp only [encode_ok_iff h]

theorem counted_ok_iff {svc : Services F} {settings : Settings} {question : Text}
    {topK : Option ℤ} {filters : Option SearchFilters} {request : Request F}
    {result : Except Exn ℤ} (hmem : .countTokens request result ∈
      (run (countingWith svc encode) settings question topK filters).2.log) :
    (∃ n, result = .ok n) ↔ ∀ t ∈ requestTexts svc.py request, ¬ special.OccursIn t := by
  obtain ⟨before, after, hlog⟩ := List.append_of_mem hmem
  have hinit : before ++ [.countTokens request result] <+:
      (run (countingWith svc encode) settings question topK filters).2.log :=
    ⟨after, by rw [hlog, List.append_assoc, List.singleton_append]⟩
  have hresult : result = countRequest svc.py encode request :=
    run_recorded (countingWith svc encode) settings question topK filters before _ hinit
  rw [requestTexts, ← countTokens_ok_iff h, hresult, countRequest,
    exists_bind_ok_iff Iff.rfl fun _ => exists_pure_ok _, and_true]

/-- A run that ends well has counted no literal. -/
theorem countsPlain_of_ok {svc : Services F} {settings : Settings} {question : Text}
    {topK : Option ℤ} {filters : Option SearchFilters}
    (hok : (run (countingWith svc encode) settings question topK filters).1 = .ok ()) :
    CountsPlain special svc.py
      (run (countingWith svc encode) settings question topK filters).2.log := by
  intro request result hmem
  apply (counted_ok_iff h hmem).mp
  have hanswer : result.isOk = true := succeeded_of_ok hok _ hmem
  cases result with
  | ok n => exact ⟨n, rfl⟩
  | error e => cases hanswer

/-- A question with a literal is not answered. -/
theorem question_aborts {svc : Services F} {settings : Settings} {question : Text}
    (hsteps : settings.maxAgentSteps ≠ 0) (hquestion : special.OccursIn question)
    (topK : Option ℤ) (filters : Option SearchFilters) :
    (run (countingWith svc encode) settings question topK filters).1 ≠ .ok () := by
  intro hok
  obtain ⟨request, result, registry, hmem, hmessage⟩ := question_counted hsteps hok
  exact countsPlain_of_ok h hok request result hmem _ (mem_requestTexts hmessage)
    (occursIn_buildAgentPrompt hquestion registry)

end Runs

/-- Chunking and counting succeed if and only if no literal occurs; a document with a literal
takes its batch along, and a text with a literal that is counted takes the run along. -/
theorem special_tokens_raise_iff {special special' : SpecialTokens} {enc : Tokenizer}
    {encode : Text → Except Exn (List ℕ)} (h : Tiktoken special enc.encode)
    (h' : Tiktoken special' encode) :
    (∀ text markdown target overlap,
      (∃ pieces, chunkDocument enc text markdown target overlap = .ok pieces) ↔
        ¬ special.OccursIn text) ∧
    (∀ (py : Interpreter F) messages system tools,
      (∃ n, OpenAI.countTokens py encode messages system tools = .ok n) ↔
        ∀ t ∈ OpenAI.countedTexts py messages system tools, ¬ special'.OccursIn t) ∧
    (∀ docs, ((∃ pairs, docPieces enc docs = .ok pairs) ↔
        ∀ doc ∈ docs, ¬ special.OccursIn doc.text) ∧
      ∀ (provider : EmbeddingProvider F) batchSize createdAt {dim} (t : ChunkTable F dim),
        (∃ doc ∈ docs, special.OccursIn doc.text) →
          ingestDocuments enc provider batchSize createdAt docs t = .error .valueError t) ∧
    ∀ (svc : Services F) settings question topK filters,
      ((run (countingWith svc encode) settings question topK filters).1 = .ok () →
        CountsPlain special' svc.py
          (run (countingWith svc encode) settings question topK filters).2.log) ∧
      (settings.maxAgentSteps ≠ 0 → special'.OccursIn question →
        (run (countingWith svc encode) settings question topK filters).1 ≠ .ok ()) := by
  refine ⟨?_, ?_, ?_, ?_⟩
  · intro text markdown target overlap
    exact chunkDocument_ok_iff h text markdown target overlap
  · intro py messages system tools
    exact countTokens_ok_iff h' py messages system tools
  · intro docs
    constructor
    · exact docPieces_ok_iff h docs
    · intro provider batchSize createdAt dim t hdocs
      exact ingestDocuments_of_occursIn h hdocs provider batchSize createdAt t
  · intro svc settings question topK filters
    constructor
    · exact countsPlain_of_ok h'
    · intro hsteps hquestion
      exact question_aborts h' hsteps hquestion topK filters

/-! ### The literals of one encoding -/

def endOfText : Text := "<|endoftext|>".toList

instance (s : Text) : Decidable (∀ c ∈ s, c.toNat ∉ lineEnds) :=
  List.decidableBAll (fun c : Char => c.toNat ∉ lineEnds) s

def cl100kBase : SpecialTokens where
  literals := [endOfText, "<|fim_prefix|>".toList, "<|fim_middle|>".toList,
    "<|fim_suffix|>".toList, "<|endofprompt|>".toList]
  nonempty := by decide
  oneLine := by decide

instance (special : SpecialTokens) (text : Text) : Decidable (special.OccursIn text) :=
  inferInstanceAs (Decidable (∃ s ∈ special.literals, s <:+: text))

/-- One token for every character of a text without literals. -/
def literalTokenizer : Tokenizer where
  encode text :=
    if cl100kBase.OccursIn text then .error .valueError else .ok (text.map Char.toNat)
  decode tokens := tokens.map Char.ofNat

theorem literalTokenizer_tiktoken : Tiktoken cl100kBase literalTokenizer.encode where
  rejects _ h := if_pos h
  encodes _ h := ⟨_, if_neg h⟩

theorem occursIn_endOfText : cl100kBase.OccursIn endOfText :=
  ⟨endOfText, List.mem_cons_self, List.infix_rfl⟩

theorem special_tokens_raise_iff_endOfText :
    (∃ pieces, chunkDocument literalTokenizer endOfText false 500 80 = .ok pieces) ↔
      ¬ cl100kBase.OccursIn endOfText :=
  (special_tokens_raise_iff (F := Unit) literalTokenizer_tiktoken
    literalTokenizer_tiktoken).1 endOfText false 500 80

def plainDoc (docId text : Text) : SourceDoc := ⟨docId, "runbook".toList, [], text, false⟩

/-- The literal is no document, no question and no batch. -/
theorem endOfText_raises :
    chunkDocument literalTokenizer endOfText false 500 80 = .error .valueError ∧
      (∀ n, OpenAI.countTokens plainInterpreter literalTokenizer.encode [.user endOfText] none none ≠
        .ok n) ∧
      ingestDocuments literalTokenizer lengthProvider 64 0
          [plainDoc "RB-1".toList "restart".toList, plainDoc "RB-2".toList endOfText]
          (.empty : ChunkTable ℕ 1) = .error .valueError .empty ∧
      (run (countingWith (scripted [outageChunk] searchThenAnswer rollbackOutcome)
        literalTokenizer.encode) ⟨8, 6, 30000, 15, 2, 2000⟩ endOfText none none).1 ≠ .ok () := by
  refine ⟨?_, ?_, ?_, ?_⟩
  · exact chunkDocument_of_occursIn literalTokenizer_tiktoken occursIn_endOfText false 500 80
  · intro n hn
    have hplain := (countTokens_ok_iff literalTokenizer_tiktoken _ _ _ _).mp ⟨n, hn⟩
    exact hplain endOfText (by simp [OpenAI.countedTexts, LLMMessage.user]) occursIn_endOfText
  · apply ingestDocuments_of_occursIn literalTokenizer_tiktoken
    exact ⟨plainDoc "RB-2".toList endOfText, by simp, occursIn_endOfText⟩
  · exact question_aborts literalTokenizer_tiktoken (by decide) occursIn_endOfText none none

end GroundedOps.Agent.Orchestrator
