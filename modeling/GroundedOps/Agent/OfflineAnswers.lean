import GroundedOps.Agent.EventProtocol
import GroundedOps.Llm.EchoAnswers

/-!
# Answers without a model

With the offline provider the whole pipeline is determined by what retrieval returns. A
fence-safe request whose quoted sentences can be read cites the first records, and what these
sentences cite themselves.
-/

namespace GroundedOps.Agent

open Python Llm Retrieval Program EchoLLMProvider

variable {F : Type}

/-! ### Validation of the answer -/

theorem mem_take_entries {registry : CitationRegistry} {k : ℕ} {e : CitationEntry} :
    e ∈ registry.entries.take k ↔ e ∈ registry.entries ∧ e.index ≤ k := by
  constructor
  · intro h
    obtain ⟨i, hi⟩ := List.getElem?_of_mem h
    rw [List.getElem?_take] at hi
    split_ifs at hi with hlt
    have hindex := CitationRegistry.index_of_getElem? hi
    exact ⟨List.mem_of_getElem? hi, by omega⟩
  · rintro ⟨he, hle⟩
    obtain ⟨i, hi⟩ := List.getElem?_of_mem he
    have hindex := CitationRegistry.index_of_getElem? hi
    apply List.mem_of_getElem? (i := i)
    rw [List.getElem?_take_of_lt (by omega), hi]

theorem intDigits_small {n : ℕ} (h : n ≤ 3) : intDigits (str n) = .ok n := by
  apply intDigits_str
  interval_cases n <;> decide

theorem strip_collapse_notEnough : strip (collapse notEnough) = notEnough := by decide +kernel

theorem validate_notEnough (registry : CitationRegistry) :
    validateAndStrip notEnough registry = .ok (notEnough, []) := by
  have hsilent : ∀ w, ¬ Cited notEnough w := by
    rintro w ⟨-, hw⟩
    have hopen : '[' ∉ notEnough := by decide
    exact not_cited_of_notMem hopen hw
  obtain ⟨used, hvalid, -, hused⟩ := @validateAndStrip_ok registry notEnough
    fun w hw => absurd hw (hsilent w)
  have hnil : used = [] := by
    apply List.eq_nil_iff_forall_not_mem.mpr
    intro i hi
    obtain ⟨w, hw, -⟩ := (hused i).mp hi
    exact hsilent w hw
  rw [hvalid, hnil, strike_eq_self fun w hw => absurd hw (hsilent w), strip_collapse_notEnough]

/-- No number in the quoted sentences is too long to be read. -/
def Readable (entries : List CitationEntry) : Prop :=
  ∀ e ∈ entries.take 3, ∀ w, Cited (firstSentence e.content) w → w.length ≤ maxStrDigits

/-- The first records are cited, and those that their sentences cite themselves. -/
theorem validate_spoken {registry : CitationRegistry} (hread : Readable registry.entries) :
    ∃ used, validateAndStrip (spoken registry.entries) registry =
        .ok (strip (collapse (strike registry (spoken registry.entries))), used) ∧
      used.Pairwise (· < ·) ∧
      ∀ i, i ∈ used ↔ registry.hasIndex i = true ∧
        (i ≤ 3 ∨ ∃ e ∈ registry.entries.take 3, ∃ w,
          Cited (firstSentence e.content) w ∧ intDigits w = .ok i) := by
  have hread' : ∀ w, Cited (spoken registry.entries) w → ∃ i, intDigits w = .ok i := by
    intro w hw
    obtain ⟨e, he, hcase, hdigits⟩ := cited_spoken.mp hw
    rcases hcase with rfl | hcited
    · exact ⟨_, intDigits_small (mem_take_entries.mp he).2⟩
    · exact (intDigits_decimal hdigits.1 hdigits.2).mpr (hread e he w hcited)
  obtain ⟨used, hvalid, hsorted, hused⟩ := validateAndStrip_ok registry hread'
  refine ⟨used, hvalid, hsorted, fun i => ?_⟩
  rw [hused]
  constructor
  · rintro ⟨w, hw, hi, hheld⟩
    obtain ⟨e, he, hcase, -⟩ := cited_spoken.mp hw
    refine ⟨hheld, ?_⟩
    rcases hcase with rfl | hcited
    · have hle := (mem_take_entries.mp he).2
      rw [intDigits_small hle] at hi
      obtain rfl := Except.ok.inj hi
      exact .inl hle
    · exact .inr ⟨e, he, w, hcited, hi⟩
  · rintro ⟨hheld, hcase⟩
    rcases hcase with hle | ⟨e, he, w, hcited, hi⟩
    · obtain ⟨e, he, rfl⟩ := CitationRegistry.hasIndex_iff.mp hheld
      have hmem := mem_take_entries.mpr ⟨he, hle⟩
      exact ⟨_, cited_spoken.mpr ⟨e, hmem, .inl rfl, digits_str e.index⟩, intDigits_small hle, hheld⟩
    · exact ⟨w, cited_spoken.mpr ⟨e, he, .inr hcited, hcited.1⟩, hi, hheld⟩

theorem costUsd_offline (inputTokens outputTokens : ℤ) :
    Core.costUsd EchoLLMProvider.modelName inputTokens outputTokens = 0 := by
  have hunpriced : Core.modelPricing EchoLLMProvider.modelName = none := by decide
  rw [Core.costUsd, hunpriced]

section SingleShot

variable {retrieve : Text → ℤ → Option SearchFilters → Except Exn (List (RetrievedChunk F))}
  {question : Text} {topK : ℤ} {filters : Option SearchFilters}
  {chunks : List (RetrievedChunk F)}

theorem generateGroundedAnswer_offline (hchunks : retrieve question topK filters = .ok chunks)
    (hsafe : FenceSafe question (registryOf chunks).entries) (maxTokens : ℕ) {cleaned : Text}
    {used : List ℕ}
    (hvalid : validateAndStrip (spoken (registryOf chunks).entries) (registryOf chunks) =
      .ok (cleaned, used)) :
    generateGroundedAnswer retrieve echoProvider question topK maxTokens filters =
      .ok ⟨cleaned, sourcesFor (registryOf chunks) used, used,
        (complete (answerRequest (F := F) question (registryOf chunks) maxTokens)).usage, 0,
        EchoLLMProvider.modelName⟩ := by
  have hanswer : (complete (answerRequest (F := F) question (registryOf chunks) maxTokens)).text =
      spoken (registryOf chunks).entries := answer_fill hsafe
  have hmodel : (if (complete (answerRequest (F := F) question (registryOf chunks)
      maxTokens)).model.isEmpty then EchoLLMProvider.modelName else
        (complete (answerRequest (F := F) question (registryOf chunks) maxTokens)).model) =
          EchoLLMProvider.modelName := rfl
  simp only [generateGroundedAnswer, hchunks, ok_bind, echoProvider, hanswer, hvalid, hmodel,
    costUsd_offline]
  rfl

end SingleShot

def honestChunks : List (RetrievedChunk Unit) :=
  [ticketChunk "a".toList "t".toList "ok".toList, ticketChunk "b".toList "u".toList "forged".toList]

theorem readable_honest : Readable (registryOf honestChunks).entries := by
  have hplain : ∀ e ∈ (registryOf honestChunks).entries.take 3, '[' ∉ firstSentence e.content := by
    decide +kernel
  intro e he w hw
  exact absurd hw.2 (not_cited_of_notMem (hplain e he))

end GroundedOps.Agent
