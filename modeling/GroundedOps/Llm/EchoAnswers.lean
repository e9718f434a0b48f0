import GroundedOps.Agent.GroundedAnswers
import GroundedOps.Agent.RecordFence
import GroundedOps.Library.Lists
import GroundedOps.Python.JsonDecoder

/-!
# The offline provider

It reads the records back out of the prompt and quotes the first sentences of the first three,
each under its own number. A fence-safe prompt gives back the registry's records, so the
answer cites what the registry holds.
-/

namespace GroundedOps.Llm

open Python Scan Agent

variable {F : Type}

/-- `_tokens` -/
def tokens (text : Text) : ℕ := max 1 (text.length / 4)

namespace EchoLLMProvider

def modelName : Text := "echo-offline".toList

/-- The content of the last user message that has one. -/
def lastUser (messages : List (LLMMessage F)) : Text :=
  let asks := fun m : LLMMessage F => m.role == .user && !(m.content.getD []).isEmpty
  ((messages.reverse.find? asks).bind LLMMessage.content).getD []

def firstSentence (content : Text) : Text :=
  let flat := join " ".toList (split content)
  ((splitFirst ". ".toList flat).elim flat Prod.fst).rdropWhile (· == '.')

def notEnough : Text := "I do not have enough grounded information to answer that.".toList

def introduction : Text := "Based on the retrieved operational records,".toList

def part (index content : Text) : Text :=
  firstSentence content ++ " [".toList ++ index ++ "].".toList

/-- `_answer` -/
def answer (messages : List (LLMMessage F)) : Text :=
  match findRecords (lastUser messages) with
  | [] => notEnough
  | records => introduction ++ " ".toList ++
      join " ".toList ((records.take 3).map fun r => part r.1 r.2)

def complete (request : Request F) : LLMResponse F where
  text := answer request.messages
  usage := ⟨tokens (lastUser request.messages) + tokens request.system,
    tokens (answer request.messages)⟩
  stopReason := "end_turn".toList
  model := modelName

def countTokens (request : Request F) : ℕ :=
  (request.messages.map fun m => tokens (m.content.getD [])).sum + tokens request.system

end EchoLLMProvider

open EchoLLMProvider in
def echoProvider : LLMProvider F where
  modelName := modelName
  complete request _ := .ok (complete request)
  countTokens request := .ok (countTokens request)

namespace EchoLLMProvider

theorem lastUser_user {text : Text} (h : text ≠ []) :
    lastUser [LLMMessage.user (F := F) text] = text := by
  cases text with
  | nil => exact absurd rfl h
  | cons c text => rfl

/-! ### What it says about the records of a prompt -/

/-- The sentence that stands for an entry, under its number. -/
def quote (e : CitationEntry) : Text := part (str e.index) e.content

/-- The answer to a prompt that shows these entries. -/
def spoken (entries : List CitationEntry) : Text :=
  if entries.isEmpty then notEnough
  else introduction ++ " ".toList ++ join " ".toList ((entries.take 3).map quote)

theorem fill_ne_nil (frame : PromptFrame) (question : Text) (registry : CitationRegistry) :
    frame.fill question registry ≠ [] := by
  have hlabel : questionLabel ≠ [] := by decide
  simp [PromptFrame.fill, PromptFrame.head, hlabel]

/-- Either prompt is answered with the first entries of the registry. -/
theorem answer_fill {frame : PromptFrame} {question : Text} {registry : CitationRegistry}
    (h : FenceSafe question registry.entries) :
    answer [LLMMessage.user (F := F) (frame.fill question registry)] =
      spoken registry.entries := by
  rw [answer, lastUser_user (fill_ne_nil frame question registry), findRecords_fill h, spoken]
  cases registry.entries with
  | nil => rfl
  | cons e es =>
    simp only [List.map_cons, List.isEmpty_cons, Bool.false_eq_true, if_false, List.take_succ_cons,
      ← List.map_take, List.map_map]
    rfl

/-! ### The citations of the answer -/

theorem blank_notMem_citation {w : Text} (hw : Digits w) : ' ' ∉ citation w := fun h =>
  absurd (digits_isSpace hw ' ' h) (by decide)

theorem citation_ne_nil (w : Text) : citation w ≠ [] := by
  simp [citation]

theorem not_cited_of_notMem {t w : Text} (ht : '[' ∉ t) : ¬ citation w <:+: t := fun h =>
  ht (h.subset (by simp [citation]))

/-- A quoted sentence cites its own number and whatever the sentence cites. -/
theorem cited_quote {e : CitationEntry} {w : Text} (hw : Digits w) :
    citation w <:+: quote e ↔ w = str e.index ∨ citation w <:+: firstSentence e.content := by
  have hshape : quote e = firstSentence e.content ++ ' ' :: (citation (str e.index) ++ ['.']) := by
    simp [quote, part, citation]
  rw [hshape, infix_append_cons_iff (citation_ne_nil w) (blank_notMem_citation hw),
    citation_infix_iff (digits_str e.index) hw, or_comm]
  have hdot : ¬ citation w <:+: ['.'] := not_cited_of_notMem (by decide)
  simp only [hdot, or_false]

theorem cited_join {w : Text} (hw : Digits w) (es : List CitationEntry) :
    citation w <:+: join " ".toList (es.map quote) ↔ ∃ e ∈ es, citation w <:+: quote e := by
  induction es with
  | nil => simp [join, citation]
  | cons e es ih =>
    cases es with
    | nil => simp [join]
    | cons e' es =>
      have hjoin : join " ".toList ((e :: e' :: es).map quote) =
          quote e ++ ' ' :: join " ".toList ((e' :: es).map quote) := by
        simp [join, List.intercalate_cons_cons]
      rw [hjoin, infix_append_cons_iff (citation_ne_nil w) (blank_notMem_citation hw), ih,
        List.exists_mem_cons_iff (fun e => citation w <:+: quote e) e]

/-- The answer cites the numbers of the first entries, and what their sentences cite. -/
theorem cited_spoken {entries : List CitationEntry} {w : Text} :
    Cited (spoken entries) w ↔ ∃ e ∈ entries.take 3,
      (w = str e.index ∨ Cited (firstSentence e.content) w) ∧ Digits w := by
  have hsilent : ∀ t : Text, '[' ∉ t → ¬ citation w <:+: t := fun t ht => not_cited_of_notMem ht
  by_cases hw : Digits w
  · simp only [Cited, hw, true_and, and_true]
    rw [spoken]
    cases entries with
    | nil =>
      have hnone : '[' ∉ notEnough := by decide
      simpa using hsilent notEnough hnone
    | cons e es =>
      have hlead : '[' ∉ introduction := by decide
      have hshape : introduction ++ " ".toList ++ join " ".toList (((e :: es).take 3).map quote) =
          introduction ++ ' ' :: join " ".toList (((e :: es).take 3).map quote) := by simp
      rw [if_neg (by simp), hshape,
        infix_append_cons_iff (citation_ne_nil w) (blank_notMem_citation hw), cited_join hw]
      simp only [hsilent _ hlead, false_or, cited_quote hw]
  · simp [Cited, hw]

end EchoLLMProvider

end GroundedOps.Llm
