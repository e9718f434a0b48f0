import GroundedOps.Agent.Citations

/-!
# Record grammar of the offline provider

The provider reads the labelled, fenced records back out of a prompt with one
non-greedy pattern. Its matches carry the matched text besides the two groups.
-/

namespace GroundedOps.Llm

open Python Scan Agent

structure RecordMatch where
  text : Text
  index : Text
  content : Text
  deriving DecidableEq, Repr

def fenceOpen : Text := '\n' :: recordOpen ++ ['\n']

def fenceClose : Text := '\n' :: recordClose

/-- The pattern `\[(\d+)\][^\n]*\n<<<RECORD\n(.*?)\nRECORD>>>` at the head of the text. -/
def recordAt (s : Text) : Option (RecordMatch × Text) :=
  match citeAt s with
  | none => none
  | some (index, labelled) =>
    let line := labelled.takeWhile (· != '\n')
    match (labelled.dropWhile (· != '\n')).dropPrefix? fenceOpen with
    | none => none
    | some fenced =>
      match splitFirst fenceClose fenced with
      | none => none
      | some (content, rest) =>
        let text := citation index ++ line ++ fenceOpen ++ content ++ fenceClose
        some (⟨text, index, content⟩, rest)

theorem newline_notMem_recordClose : '\n' ∉ recordClose := by decide

theorem takeWhile_line {line t : Text} (h : '\n' ∉ line) :
    (line ++ '\n' :: t).takeWhile (· != '\n') = line ∧
      (line ++ '\n' :: t).dropWhile (· != '\n') = '\n' :: t := by
  have hline : ∀ c ∈ line, (c != '\n') = true := fun c hc => by
    simpa using fun hn : c = '\n' => h (hn ▸ hc)
  constructor
  · rw [List.takeWhile_append_of_pos hline, List.takeWhile_cons_of_neg (by simp), List.append_nil]
  · rw [List.dropWhile_append_of_pos hline, List.dropWhile_cons_of_neg (by simp)]

/-- A match spans a label, the rest of its line, the opening fence and the text
up to the first closing fence. -/
theorem recordAt_eq_some {s rest : Text} {m : RecordMatch} :
    recordAt s = some (m, rest) ↔ ∃ line, Digits m.index ∧ '\n' ∉ line ∧
      m.text = citation m.index ++ line ++ fenceOpen ++ m.content ++ fenceClose ∧
      s = m.text ++ rest ∧ ¬ fenceClose <:+: m.content := by
  constructor
  · intro h
    unfold recordAt at h
    split at h
    · cases h
    · next index labelled hcite =>
      obtain ⟨rfl, hdigits⟩ := citeAt_eq_some.mp hcite
      dsimp only at h
      split at h
      · cases h
      · next fenced hfence =>
        obtain ⟨p, hdrop, hp⟩ := List.dropPrefix?_eq_some_iff.mp hfence
        obtain rfl := eq_of_beq hp
        split at h
        · cases h
        · next content rest' hsplit =>
          cases h
          refine ⟨labelled.takeWhile (· != '\n'), hdigits, fun hn => ?_, rfl, ?_, ?_⟩
          · simpa using List.mem_takeWhile_imp hn
          · have hlab := List.takeWhile_append_dropWhile (p := (· != '\n')) (l := labelled)
            rw [hdrop, splitFirst_eq_some hsplit] at hlab
            conv_lhs => rw [← hlab]
            simp
          · exact not_infix_of_splitFirst (by simp [fenceClose]) hsplit
  · rintro ⟨line, hdigits, hline, htext, rfl, hcontent⟩
    have hsplit : splitFirst fenceClose (m.content ++ fenceClose ++ rest) =
        some (m.content, rest) :=
      splitFirst_of_not_infix newline_notMem_recordClose hcontent
    have hcite : citeAt (m.text ++ rest) = some (m.index,
        line ++ '\n' :: (recordOpen ++ ['\n'] ++ (m.content ++ fenceClose ++ rest))) := by
      refine citeAt_eq_some.mpr ⟨?_, hdigits⟩
      rw [htext]
      simp [fenceOpen]
    have hfence : ('\n' :: (recordOpen ++ ['\n'] ++ (m.content ++ fenceClose ++ rest))).dropPrefix?
        fenceOpen = some (m.content ++ fenceClose ++ rest) :=
      List.dropPrefix?_eq_some_iff.mpr ⟨fenceOpen, by simp [fenceOpen], by simp⟩
    unfold recordAt
    rw [hcite]
    simp only [takeWhile_line hline, hfence, hsplit, ← htext]

def record : Matcher Char RecordMatch where
  run := recordAt
  shorter h := by
    obtain ⟨line, -, -, htext, rfl, -⟩ := recordAt_eq_some.mp h
    rw [htext]
    simp [citation]
    omega

theorem record_eq_some {s rest : Text} {m : RecordMatch} :
    record.run s = some (m, rest) ↔ ∃ line, Digits m.index ∧ '\n' ∉ line ∧
      m.text = citation m.index ++ line ++ fenceOpen ++ m.content ++ fenceClose ∧
      s = m.text ++ rest ∧ ¬ fenceClose <:+: m.content :=
  recordAt_eq_some

/-- The groups `findall` returns, in order of the matches. -/
def findRecords (prompt : Text) : List (Text × Text) :=
  (findAll record prompt).map fun m => (m.index, m.content)

end GroundedOps.Llm
