import GroundedOps.Agent.Citations
import GroundedOps.Llm.Types
import GroundedOps.Python.Sequences

/-!
# Faithfulness scoring

The answer is cut into sentences; the long ones, up to a limit, are put to a judge one by
one, and its verdicts are averaged. The judge is arbitrary: it answers as a function of what
it was asked before. `upper` stands for the case mapping of the interpreter. The score is
computed exactly: the sums and quotients of at most eight halves that are compared with one
are the same in floating point.
-/

namespace GroundedOps.Agent

open Python Llm Scan Program

variable {F : Type}

/-! ### Claims -/

def isStop (c : Char) : Bool := c = '.' || c = '!' || c = '?'

/-- What is in front of the next character of a split at `(?<=[.!?])\s+`. -/
inductive Behind
  | stop
  | separator
  | other
  deriving DecidableEq, Repr

def behind (c : Char) : Behind := if isStop c then .stop else .other

/-- Puts a character in front of the first sentence. -/
def consSentence (c : Char) : List Text → List Text
  | [] => [[c]]
  | s :: sentences => (c :: s) :: sentences

def sentencesFrom : Behind → Text → List Text
  | _, [] => [[]]
  | .stop, c :: s =>
    if isSpace c then [] :: sentencesFrom .separator s
    else consSentence c (sentencesFrom (behind c) s)
  | .separator, c :: s =>
    if isSpace c then sentencesFrom .separator s
    else consSentence c (sentencesFrom (behind c) s)
  | .other, c :: s => consSentence c (sentencesFrom (behind c) s)

def sentences (text : Text) : List Text := sentencesFrom .other text

/-- The sentences of an answer that count, without the limit. -/
def longSentences (answer : Text) : List Text :=
  ((sentences (sub cite (fun _ => []) answer)).map strip).filter fun s => 15 < s.length

def claimLimit : ℤ := 8

def splitClaims (answer : Text) (limit : ℤ) : List Text := sliceTo (longSentences answer) limit

example : splitClaims "The outage lasted three hours [1]. Ok. It was a deploy bug [2].".toList
    claimLimit = ["The outage lasted three hours .".toList, "It was a deploy bug .".toList] := by
  decide

/-! ### The judge -/

def judgeSystem : Text :=
  ("You are a strict grounding judge. Given CONTEXT and a CLAIM, decide whether the " ++
    "context supports the claim. Reply with exactly one word: SUPPORTED, PARTIAL, or " ++
    "UNSUPPORTED. Do not explain.").toList

structure JudgeRequest (F : Type) where
  system : Text
  messages : List (LLMMessage F)
  maxTokens : ℕ
  temperature : Option F

/-- What the judge was asked, and what came of it. -/
abbrev JudgeCall (F : Type) := JudgeRequest F × Except Exn (LLMResponse F)

structure Judge (F : Type) where
  complete : List (JudgeCall F) → JudgeRequest F → Except Exn (LLMResponse F)

abbrev JudgeM (F : Type) := EStateM Exn (List (JudgeCall F))

def Judge.ask (judge : Judge F) (request : JudgeRequest F) : JudgeM F (LLMResponse F) := do
  let log ← get
  let result := judge.complete log request
  set (log ++ [(request, result)])
  match result with
  | .ok response => pure response
  | .error e => throw e

def judgePrompt (context claim : Text) : Text :=
  "CONTEXT:\n".toList ++ context ++ "\n\nCLAIM:\n".toList ++ claim ++
    "\n\nVerdict (SUPPORTED / PARTIAL / UNSUPPORTED):".toList

def judgeRequest (temperature : Option F) (context claim : Text) : JudgeRequest F :=
  { system := judgeSystem
    messages := [.user (judgePrompt context claim)]
    maxTokens := 8
    temperature }

def unsupported : Text := "UNSUPPORTED".toList
def partially : Text := "PARTIAL".toList
def supported : Text := "SUPPORTED".toList

structure FaithfulnessResult where
  score : ℚ
  perClaim : List (Text × ℚ)
  deriving DecidableEq, Repr

section Scoring

variable (upper : Text → Text)

def labelScore (text : Text) : ℚ :=
  let upper := upper (strip text)
  if unsupported <:+: upper then 0
  else if partially <:+: upper then 1 / 2
  else if supported <:+: upper then 1
  else 0

variable (judge : Judge F) (temperature : Option F)

def scoreClaims (context : Text) (claims : List Text) : JudgeM F (List (Text × ℚ)) :=
  claims.mapM fun claim => do
    let response ← judge.ask (judgeRequest temperature context claim)
    pure (claim, labelScore upper response.text)

def scoreFaithfulness (answer : Text) (contextChunks : List Text) :
    JudgeM F FaithfulnessResult := do
  let claims := splitClaims answer claimLimit
  if claims = [] then pure ⟨0, []⟩
  else
    let perClaim ← scoreClaims upper judge temperature (join "\n\n".toList contextChunks) claims
    pure ⟨(perClaim.map Prod.snd).sum / perClaim.length, perClaim⟩

end Scoring

/-! ### Sentences -/

theorem splitClaims_claimLimit (answer : Text) :
    splitClaims answer claimLimit = (longSentences answer).take 8 :=
  sliceTo_natCast (longSentences answer) 8

/-! ### Verdicts -/

/-- The reply contains SUPPORTED, and neither UNSUPPORTED nor PARTIAL. -/
structure ReadAsSupport (upper : Text → Text) (reply : Text) : Prop where
  supported : supported <:+: upper (strip reply)
  notUnsupported : ¬ unsupported <:+: upper (strip reply)
  notPartial : ¬ partially <:+: upper (strip reply)

theorem labelScore_le_one (upper : Text → Text) (text : Text) : labelScore upper text ≤ 1 := by
  simp only [labelScore]
  split_ifs <;> norm_num

theorem labelScore_eq_one_iff {upper : Text → Text} {text : Text} :
    labelScore upper text = 1 ↔ ReadAsSupport upper text := by
  simp only [labelScore]
  constructor
  · intro h
    split_ifs at h with hno hpart hyes
    · norm_num at h
    · norm_num at h
    · exact ⟨hyes, hno, hpart⟩
    · norm_num at h
  · intro h
    rw [if_neg h.notUnsupported, if_neg h.notPartial, if_pos h.supported]

/-! ### Averages -/

theorem sum_le_length {l : List ℚ} (h : ∀ x ∈ l, x ≤ 1) : l.sum ≤ l.length := by
  have hsum := List.sum_le_card_nsmul l 1 h
  rwa [nsmul_one] at hsum

/-- One value below the bound keeps the sum below it. -/
theorem sum_eq_length_iff {l : List ℚ} (h : ∀ x ∈ l, x ≤ 1) :
    l.sum = l.length ↔ ∀ x ∈ l, x = 1 := by
  constructor
  · intro hsum x hx
    by_contra hne
    have hlt : (l.map id).sum < (l.map fun _ => (1 : ℚ)).sum :=
      List.sum_lt_sum id (fun _ => 1) h ⟨x, hx, lt_of_le_of_ne (h x hx) hne⟩
    rw [List.map_id, List.map_const', List.sum_replicate, nsmul_one, hsum] at hlt
    exact lt_irrefl _ hlt
  · intro hone
    rw [List.eq_replicate_of_mem hone, List.sum_replicate, nsmul_one, List.length_replicate]

theorem average_le_one {l : List ℚ} (h : ∀ x ∈ l, x ≤ 1) : l.sum / l.length ≤ 1 :=
  div_le_one_of_le₀ (sum_le_length h) (Nat.cast_nonneg _)

theorem average_eq_one_iff {l : List ℚ} (hne : l ≠ []) (h : ∀ x ∈ l, x ≤ 1) :
    l.sum / l.length = 1 ↔ ∀ x ∈ l, x = 1 := by
  have hlength : (l.length : ℚ) ≠ 0 := by
    rwa [Nat.cast_ne_zero, Ne, List.length_eq_zero_iff]
  rw [div_eq_one_iff_eq hlength, sum_eq_length_iff h]

/-! ### What the judge was asked -/

theorem Judge.ask_eq_ok {judge : Judge F} {request : JudgeRequest F} {response : LLMResponse F}
    {log log' : List (JudgeCall F)} (h : judge.ask request log = .ok response log') :
    log' = log ++ [(request, .ok response)] := by
  simp only [Judge.ask, run_get_bind, run_set_bind] at h
  cases hreply : judge.complete log request with
  | error e =>
    rw [hreply] at h
    cases h
  | ok r =>
    rw [hreply] at h
    cases h
    rfl

/-- The judge replied, and the reply has the value that the claim got. -/
def Valued (upper : Text → Text) (call : JudgeCall F) (scored : Text × ℚ) : Prop :=
  ∃ response, call.2 = .ok response ∧ scored.2 = labelScore upper response.text

/-- Every claim is put to the judge, in order. -/
theorem scoreClaims_spec {upper : Text → Text} {judge : Judge F} {temperature : Option F}
    {context : Text} {claims : List Text} {perClaim : List (Text × ℚ)}
    {log log' : List (JudgeCall F)}
    (h : scoreClaims upper judge temperature context claims log = .ok perClaim log') :
    ∃ calls, log' = log ++ calls ∧
      List.Forall₂ (fun claim call => call.1 = judgeRequest temperature context claim)
        claims calls ∧
      List.Forall₂ (Valued upper) calls perClaim := by
  induction claims generalizing perClaim log with
  | nil =>
    cases h
    exact ⟨[], (List.append_nil _).symm, .nil, .nil⟩
  | cons claim claims ih =>
    simp only [scoreClaims, List.mapM_cons] at h ih
    obtain ⟨scored, middle, hclaim, h⟩ := run_bind_eq_ok.mp h
    obtain ⟨response, middle', hask, hscored⟩ := run_bind_eq_ok.mp hclaim
    obtain ⟨rest, last, hrest, h⟩ := run_bind_eq_ok.mp h
    cases hscored
    cases h
    obtain ⟨calls, rfl, hasked, hanswered⟩ := ih hrest
    obtain rfl := Judge.ask_eq_ok hask
    refine ⟨(judgeRequest temperature context claim, .ok response) :: calls, ?_, ?_, ?_⟩
    · rw [List.append_assoc, List.singleton_append]
    · exact .cons rfl hasked
    · exact .cons ⟨response, rfl, rfl⟩ hanswered

/-- The verdicts are all one exactly when every reply is read as support. -/
theorem forall_eq_one_iff {upper : Text → Text} {calls : List (JudgeCall F)}
    {perClaim : List (Text × ℚ)} (h : List.Forall₂ (Valued upper) calls perClaim) :
    (∀ x ∈ perClaim.map Prod.snd, x = 1) ↔
      ∀ call ∈ calls, ∃ response, call.2 = .ok response ∧ ReadAsSupport upper response.text := by
  induction h with
  | nil => simp
  | @cons call scored calls perClaim hcall _ ih =>
    obtain ⟨response, hreply, hscore⟩ := hcall
    rw [List.map_cons, List.forall_mem_cons, List.forall_mem_cons, ih]
    apply and_congr_left'
    rw [hscore, labelScore_eq_one_iff]
    constructor
    · intro hread
      exact ⟨response, hreply, hread⟩
    · rintro ⟨r, hr, hread⟩
      rw [hreply] at hr
      cases hr
      exact hread

theorem forall_le_one {upper : Text → Text} {calls : List (JudgeCall F)}
    {perClaim : List (Text × ℚ)} (h : List.Forall₂ (Valued upper) calls perClaim) :
    ∀ x ∈ perClaim.map Prod.snd, x ≤ 1 := by
  induction h with
  | nil => simp
  | cons hcall _ ih =>
    obtain ⟨response, -, hscore⟩ := hcall
    rw [List.map_cons, List.forall_mem_cons, hscore]
    exact ⟨labelScore_le_one upper response.text, ih⟩

/-- The first eight long sentences are put to the judge one by one, and the score is one
exactly when there is such a sentence and every reply is read as support. -/
theorem perfect_score_iff (upper : Text → Text) (judge : Judge F) (temperature : Option F)
    (answer : Text) (contextChunks : List Text) {result : FaithfulnessResult}
    {log log' : List (JudgeCall F)}
    (h : scoreFaithfulness upper judge temperature answer contextChunks log = .ok result log') :
    ∃ calls, log' = log ++ calls ∧
      List.Forall₂ (fun claim call => call.1 =
          judgeRequest temperature (join "\n\n".toList contextChunks) claim)
        ((longSentences answer).take 8) calls ∧
      result.score ≤ 1 ∧
      (result.score = 1 ↔ longSentences answer ≠ [] ∧ ∀ call ∈ calls,
        ∃ response, call.2 = .ok response ∧ ReadAsSupport upper response.text) := by
  have hempty : (longSentences answer).take 8 = [] ↔ longSentences answer = [] := by
    rw [List.take_eq_nil_iff]
    simp
  simp only [scoreFaithfulness, splitClaims_claimLimit] at h
  split_ifs at h with hnone
  · cases h
    refine ⟨[], (List.append_nil _).symm, ?_, by norm_num, ?_⟩
    · rw [hnone]
      exact .nil
    · simp [hempty.mp hnone]
  · obtain ⟨perClaim, last, hrun, h⟩ := run_bind_eq_ok.mp h
    cases h
    obtain ⟨calls, hlog, hasked, hanswered⟩ := scoreClaims_spec hrun
    have hlength : perClaim.map Prod.snd ≠ [] := by
      rw [Ne, List.map_eq_nil_iff, ← List.length_eq_zero_iff, ← hanswered.length_eq,
        ← hasked.length_eq, List.length_eq_zero_iff]
      exact hnone
    have hle := forall_le_one hanswered
    rw [← List.length_map Prod.snd]
    refine ⟨calls, hlog, hasked, average_le_one hle, ?_⟩
    rw [average_eq_one_iff hlength hle, forall_eq_one_iff hanswered]
    exact (and_iff_right fun hlong => hnone (hempty.mpr hlong)).symm

/-- `str.upper`, for ASCII -/
def upperAscii (s : Text) : Text := s.map Char.toUpper

def twoSentences : Text :=
  "The outage lasted three hours [1]. The cause was a deployment regression [2].".toList

theorem perfect_score_iff_two : ∃ result log,
    scoreFaithfulness upperAscii (⟨fun _ _ => .ok { text := "Supported".toList }⟩ : Judge ℚ)
      (some 0) twoSentences ["context".toList] [] = .ok result log ∧
    result.score = 1 ∧ log.length = 2 ∧
    ∀ call ∈ log, ∃ response, call.2 = .ok response ∧ ReadAsSupport upperAscii response.text := by
  have hreturns : returnsWith (fun result _ => result.score = 1) (scoreFaithfulness upperAscii
      (⟨fun _ _ => .ok { text := "Supported".toList }⟩ : Judge ℚ) (some 0) twoSentences
      ["context".toList] []) = true := by decide +kernel
  obtain ⟨result, log, hrun, hscore⟩ := exists_of_returnsWith hreturns
  have hone : result.score = 1 := of_decide_eq_true hscore
  obtain ⟨calls, hlog, hasked, -, hiff⟩ := perfect_score_iff _ _ _ _ _ hrun
  have hlength : ((longSentences twoSentences).take 8).length = 2 := by decide +kernel
  rw [List.nil_append] at hlog
  subst hlog
  exact ⟨result, log, hrun, hone, hasked.length_eq ▸ hlength, (hiff.mp hone).2⟩

/-! ### What a perfect score leaves open -/

def nineSentences : Text :=
  ("Service a failed. Service b failed. Service c failed. Service d failed. Service e failed. " ++
    "Service f failed. Service g failed. Service h failed. Service i failed.").toList

def ninthSentence : Text := "Service i failed.".toList

/-- A judge that supports everything but the ninth sentence. -/
def ninthDenied : Judge ℚ where
  complete _ request :=
    if request.messages.map (·.content) = [some (judgePrompt [] ninthSentence)] then
      .ok { text := unsupported }
    else .ok { text := supported }

/-- A judge that answers at greater length than it was told to. -/
def denying : Judge ℚ where
  complete _ _ := .ok { text := "NOT SUPPORTED".toList }

/-- An unsupported sentence does not lower the score if eight others are in front of it, and
neither does a sentence whose reply denies support in two words. -/
theorem perfect_score_unsupported :
    (∃ result log, scoreFaithfulness upperAscii ninthDenied (some 0) nineSentences [] [] =
        .ok result log ∧ result.score = 1 ∧ ninthSentence ∈ longSentences nineSentences ∧
      ∀ call ∈ log, call.1 ≠ judgeRequest (some 0) [] ninthSentence) ∧
    ∃ result log, scoreFaithfulness upperAscii denying (some 0) ninthSentence [] [] =
        .ok result log ∧ result.score = 1 := by
  constructor
  · have hreturns : returnsWith (fun result log => result.score = 1 && log.all fun call =>
        call.1.messages.map (·.content) ≠ [some (judgePrompt [] ninthSentence)])
        (scoreFaithfulness upperAscii ninthDenied (some 0) nineSentences [] []) = true := by
      decide +kernel
    obtain ⟨result, log, hrun, htest⟩ := exists_of_returnsWith hreturns
    rw [Bool.and_eq_true, decide_eq_true_eq, List.all_eq_true] at htest
    have hmem : ninthSentence ∈ longSentences nineSentences := by decide +kernel
    refine ⟨result, log, hrun, htest.1, hmem, fun call hcall heq => ?_⟩
    apply of_decide_eq_true (htest.2 call hcall)
    rw [heq]
    rfl
  · have hreturns : returnsWith (fun result _ => result.score = 1)
        (scoreFaithfulness upperAscii denying (some 0) ninthSentence [] []) = true := by
      decide +kernel
    obtain ⟨result, log, hrun, htest⟩ := exists_of_returnsWith hreturns
    exact ⟨result, log, hrun, of_decide_eq_true htest⟩

end GroundedOps.Agent
