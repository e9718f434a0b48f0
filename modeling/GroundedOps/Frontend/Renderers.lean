import GroundedOps.Agent.Orchestrator
import GroundedOps.Library.Lists
import GroundedOps.Library.Scan

/-!
# The renderers of the web page

Three functions put text that comes from the stream into templates, and the page sets the
result as markup. A template is a list of parts: markup of the page, fields that are escaped,
and fields that are inserted as they are.
-/

namespace GroundedOps.Frontend

open Python Scan Agent

variable {F : Type}

/-! ### Escaping -/

def escapeChar (c : Char) : Text :=
  if c = '&' then "&amp;".toList
  else if c = '<' then "&lt;".toList
  else if c = '>' then "&gt;".toList
  else if c = '"' then "&quot;".toList
  else [c]

def escapeHtml (s : Text) : Text := s.flatMap escapeChar

/-- A text that escaping does not change. -/
def Plain (s : Text) : Prop := ∀ c ∈ s, c ∉ ['&', '<', '>', '"']

instance (s : Text) : Decidable (Plain s) :=
  List.decidableBAll (fun c : Char => c ∉ ['&', '<', '>', '"']) s

/-! ### Templates -/

inductive Part
  | markup (text : Text)
  | escaped (field : Text)
  | inserted (field : Text)

namespace Part

/-- What the page makes of a part. -/
def html : Part → Text
  | markup text => text
  | escaped field => escapeHtml field
  | inserted field => field

/-- The part with its field escaped. -/
def safe : Part → Text
  | markup text => text
  | escaped field => escapeHtml field
  | inserted field => escapeHtml field

/-- A field that needs no escaping where it is not escaped. -/
def Harmless : Part → Prop
  | inserted field => Plain field
  | _ => True

end Part

/-! ### Citations -/

/-- The pattern `\[(\d+)\]` at the head of the text; its digits are those of ASCII. -/
def citeAt : Text → Option (Text × Text)
  | '[' :: s =>
    match s.takeWhile Char.isDigit, s.dropWhile Char.isDigit with
    | d :: digits, ']' :: rest => some (d :: digits, rest)
    | _, _ => none
  | _ => none

theorem citeAt_eq_some {s w r : Text} (h : citeAt s = some (w, r)) :
    s = '[' :: w ++ ']' :: r ∧ ∀ c ∈ w, c.isDigit = true := by
  unfold citeAt at h
  split at h
  · next s =>
    split at h
    · next d digits rest htake hdrop =>
      cases h
      have hs : s = (d :: digits) ++ ']' :: r := by
        rw [← htake, ← hdrop, List.takeWhile_append_dropWhile]
      refine ⟨by rw [hs]; rfl, fun c hc => ?_⟩
      exact List.mem_takeWhile_imp (htake ▸ hc)
    · cases h
  · cases h

theorem length_citeAt {s w r : Text} (h : citeAt s = some (w, r)) : r.length < s.length := by
  obtain ⟨rfl, -⟩ := citeAt_eq_some h
  simp only [List.length_append, List.length_cons]
  omega

def cite : Matcher Char Text where
  run := citeAt
  shorter h := length_citeAt h

def renderCitations (text : Text) : Text :=
  sub cite (fun digits => "<span class=\"cite\">[".toList ++ digits ++ "]</span>".toList) text

def segmentParts : Char ⊕ Text → List Part
  | .inl c => [.inserted [c]]
  | .inr digits =>
    [.markup "<span class=\"cite\">[".toList, .inserted digits, .markup "]</span>".toList]

/-- The answer as a template. -/
def citationParts (text : Text) : List Part := (scan cite text).flatMap segmentParts

/-! ### Sources and trace -/

def sourceParts (s : Source) : List Part :=
  [.markup "<div class=\"src\"><span class=\"idx\">[".toList, .inserted (str s.index),
    .markup "]</span> <span class=\"meta\">".toList, .inserted s.sourceType,
    .markup " · ".toList, .inserted s.docId, .markup " · ".toList, .inserted s.title,
    .markup "</span><div class=\"snip\">".toList, .escaped s.snippet,
    .markup "</div></div>".toList]

/-- `x.toFixed(0)` below ten to the twenty-first: the nearest integer, ties away from zero. -/
def toFixed (x : ℚ) : Text :=
  if x < 0 then '-' :: str ⌊-x + 1 / 2⌋.toNat else str ⌊x + 1 / 2⌋.toNat

/-- `stringify` is `JSON.stringify`. -/
def stepParts (stringify : Json F → Text) (t : TraceStep F) : List Part :=
  [.markup "<div class=\"step".toList, .markup (if t.isError then " err".toList else []),
    .markup "\"><span class=\"tool\">".toList, .inserted t.tool, .markup "</span>(".toList,
    .escaped (stringify t.arguments), .markup ") <span class=\"pill\">".toList,
    .inserted (toFixed t.latencyMs), .markup "ms</span><div>".toList,
    .escaped t.resultSummary, .markup "</div></div>".toList]

/-- The templates of a list, one behind the other; nothing is set for an empty list. -/
def renderList {α : Type} (parts : α → List Part) (fill : Part → Text) (items : List α) :
    Option Text :=
  if items.isEmpty then none else some (items.flatMap fun a => (parts a).flatMap fill)

def renderSources (sources : List Source) : Option Text := renderList sourceParts Part.html sources

def renderTrace (stringify : Json F → Text) (trace : List (TraceStep F)) : Option Text :=
  renderList (stepParts stringify) Part.html trace

/-! ### Where escaping makes a difference -/

theorem length_escapeChar (c : Char) : 1 ≤ (escapeChar c).length := by
  unfold escapeChar
  split_ifs <;> simp

theorem escapeChar_eq_self {c : Char} : [c] = escapeChar c ↔ c ∉ ['&', '<', '>', '"'] := by
  unfold escapeChar
  split_ifs with hamp hlt hgt hquot
  · subst hamp
    decide
  · subst hlt
    decide
  · subst hgt
    decide
  · subst hquot
    decide
  · simp [hamp, hlt, hgt, hquot]

theorem length_escapeHtml (s : Text) : s.length ≤ (escapeHtml s).length := by
  have h : (s.flatMap fun c => [c]).length ≤ (escapeHtml s).length :=
    length_flatMap_le fun c _ => length_escapeChar c
  rwa [List.flatMap_singleton'] at h

theorem escapeHtml_eq_self {s : Text} : s = escapeHtml s ↔ Plain s := by
  have h : (s.flatMap fun c => [c]) = escapeHtml s ↔ ∀ c ∈ s, [c] = escapeChar c :=
    flatMap_eq_flatMap_iff fun c _ => length_escapeChar c
  rw [List.flatMap_singleton'] at h
  rw [h]
  simp only [escapeChar_eq_self]
  rfl

namespace Part

theorem length_html (p : Part) : p.html.length ≤ p.safe.length := by
  cases p with
  | markup text => exact le_rfl
  | escaped field => exact le_rfl
  | inserted field => exact length_escapeHtml field

theorem html_eq_safe {p : Part} : p.html = p.safe ↔ p.Harmless := by
  cases p with
  | markup text => exact iff_of_true rfl trivial
  | escaped field => exact iff_of_true rfl trivial
  | inserted field => exact escapeHtml_eq_self

end Part

/-- A filled template is its escaped version if and only if all its parts are harmless. -/
theorem template_safe_iff (parts : List Part) :
    parts.flatMap Part.html = parts.flatMap Part.safe ↔ ∀ p ∈ parts, p.Harmless := by
  rw [flatMap_eq_flatMap_iff fun p _ => p.length_html]
  simp only [Part.html_eq_safe]

/-! ### The three renderers -/

theorem plain_cons {c : Char} {s : Text} : Plain (c :: s) ↔ c ∉ ['&', '<', '>', '"'] ∧ Plain s :=
  List.forall_mem_cons

theorem plain_append {s t : Text} : Plain (s ++ t) ↔ Plain s ∧ Plain t := List.forall_mem_append

theorem plain_digits {s : Text} (h : ∀ c ∈ s, c.isDigit = true) : Plain s := by
  intro c hc hmem
  have hdigit := h c hc
  simp only [List.mem_cons, List.not_mem_nil, or_false] at hmem
  rcases hmem with rfl | rfl | rfl | rfl
  all_goals exact absurd hdigit (by decide)

theorem renderCitations_eq (text : Text) :
    renderCitations text = (citationParts text).flatMap Part.html := by
  rw [renderCitations, sub, citationParts, List.flatMap_assoc]
  apply List.flatMap_congr
  intro segment _
  cases segment with
  | inl c => rfl
  | inr digits =>
    simp only [Sum.elim_inr, segmentParts, List.flatMap_cons, List.flatMap_nil, Part.html,
      List.append_nil, List.append_assoc]

theorem harmless_citationParts (text : Text) :
    (∀ p ∈ citationParts text, p.Harmless) ↔ Plain text := by
  induction text using scan_induction cite with
  | nil => exact iff_of_true (fun _ h => absurd h List.not_mem_nil) fun _ h => absurd h List.not_mem_nil
  | skip c s hrun ih =>
    rw [citationParts, scan_skip hrun, List.flatMap_cons, List.forall_mem_append, plain_cons]
    apply and_congr _ ih
    rw [segmentParts, List.forall_mem_singleton]
    exact List.forall_mem_singleton
  | hit s digits r hrun ih =>
    obtain ⟨rfl, hdigits⟩ := citeAt_eq_some hrun
    have hplain := plain_digits hdigits
    have hsegment : ∀ p ∈ segmentParts (.inr digits), p.Harmless := by
      simp [segmentParts, Part.Harmless, hplain]
    have hcite : Plain ('[' :: digits ++ ']' :: r) ↔ Plain r := by
      rw [List.cons_append, plain_cons, plain_append, plain_cons]
      simp [hplain]
    rw [citationParts, scan_hit hrun, List.flatMap_cons, List.forall_mem_append, hcite]
    exact (and_iff_right hsegment).trans ih

theorem renderCitations_safe_iff (text : Text) :
    renderCitations text = (citationParts text).flatMap Part.safe ↔ Plain text := by
  rw [renderCitations_eq, template_safe_iff, harmless_citationParts]

theorem plain_str (n : ℕ) : Plain (str n) := plain_digits fun _ hc => isDigit_of_mem_str hc

theorem plain_toFixed (x : ℚ) : Plain (toFixed x) := by
  unfold toFixed
  split_ifs
  · exact plain_cons.mpr ⟨by decide, plain_str _⟩
  · exact plain_str _

theorem sourceParts_safe_iff (s : Source) :
    (∀ p ∈ sourceParts s, p.Harmless) ↔ Plain s.sourceType ∧ Plain s.docId ∧ Plain s.title := by
  simp [sourceParts, Part.Harmless, plain_str]

theorem stepParts_safe_iff (stringify : Json F → Text) (t : TraceStep F) :
    (∀ p ∈ stepParts stringify t, p.Harmless) ↔ Plain t.tool := by
  simp [stepParts, Part.Harmless, plain_toFixed]

theorem length_fill (parts : List Part) :
    (parts.flatMap Part.html).length ≤ (parts.flatMap Part.safe).length :=
  length_flatMap_le fun p _ => p.length_html

theorem renderList_safe_iff {α : Type} (parts : α → List Part) (items : List α) :
    renderList parts Part.html items = renderList parts Part.safe items ↔
      ∀ a ∈ items, ∀ p ∈ parts a, p.Harmless := by
  unfold renderList
  split_ifs with hempty
  · rw [List.isEmpty_iff.mp hempty]
    exact iff_of_true rfl fun _ h => absurd h List.not_mem_nil
  · rw [Option.some.injEq, flatMap_eq_flatMap_iff fun a _ => length_fill (parts a)]
    simp only [template_safe_iff]

theorem renderSources_safe_iff (sources : List Source) :
    renderSources sources = renderList sourceParts Part.safe sources ↔
      ∀ s ∈ sources, Plain s.sourceType ∧ Plain s.docId ∧ Plain s.title := by
  rw [renderSources, renderList_safe_iff]
  simp only [sourceParts_safe_iff]

theorem renderTrace_safe_iff (stringify : Json F → Text) (trace : List (TraceStep F)) :
    renderTrace stringify trace = renderList (stepParts stringify) Part.safe trace ↔
      ∀ t ∈ trace, Plain t.tool := by
  rw [renderTrace, renderList_safe_iff]
  simp only [stepParts_safe_iff]

/-! ### The page over a stream -/

/-- The answer so far, and what was last set as markup. -/
structure Page where
  answer : Text := []
  answerHtml : Text := []
  sourcesHtml : Text := []
  traceHtml : Text := []

/-- Three ways to make markup of what the stream delivers. -/
structure Renderers (F : Type) where
  citations : Text → Text
  sources : List Source → Option Text
  trace : List (TraceStep F) → Option Text

/-- The other events set text content only. -/
def handleEvent (r : Renderers F) (page : Page) : AgentEvent F → Page
  | .token text =>
    { page with answer := page.answer ++ text, answerHtml := r.citations (page.answer ++ text) }
  | .sources sources => { page with sourcesHtml := (r.sources sources).getD page.sourcesHtml }
  | .trace trace => { page with traceHtml := (r.trace trace).getD page.traceHtml }
  | _ => page

def pageRenderers (stringify : Json F → Text) : Renderers F :=
  ⟨renderCitations, renderSources, renderTrace stringify⟩

/-- The same templates with every field escaped. -/
def safeRenderers (stringify : Json F → Text) : Renderers F where
  citations text := (citationParts text).flatMap Part.safe
  sources := renderList sourceParts Part.safe
  trace := renderList (stepParts stringify) Part.safe

/-- The fields that are not escaped need no escaping. -/
def PlainEvent : AgentEvent F → Prop
  | .token text => Plain text
  | .sources sources => ∀ s ∈ sources, Plain s.sourceType ∧ Plain s.docId ∧ Plain s.title
  | .trace trace => ∀ t ∈ trace, Plain t.tool
  | _ => True

def shown (r : Renderers F) (events : List (AgentEvent F)) : Page := events.foldl (handleEvent r) {}

section Stream

variable {stringify : Json F → Text}

theorem shown_concat (r : Renderers F) (events : List (AgentEvent F)) (event : AgentEvent F) :
    shown r (events ++ [event]) = handleEvent r (shown r events) event :=
  List.foldl_concat _ _ _ _

theorem plain_answer {events : List (AgentEvent F)} (h : ∀ event ∈ events, PlainEvent event)
    (r : Renderers F) : Plain (shown r events).answer := by
  induction events using List.reverseRecOn with
  | nil => exact fun _ hc => absurd hc List.not_mem_nil
  | append_singleton events event ih =>
    obtain ⟨hbefore, hevent⟩ := List.forall_mem_append.mp h
    have hplain := List.forall_mem_singleton.mp hevent
    rw [shown_concat]
    cases event with
    | token text => exact plain_append.mpr ⟨ih hbefore, hplain⟩
    | _ => exact ih hbefore

theorem renderList_getD_iff {α : Type} {parts : α → List Part} {fill fill' : Part → Text}
    {items : List α} {old : Text} :
    (renderList parts fill items).getD old = (renderList parts fill' items).getD old ↔
      renderList parts fill items = renderList parts fill' items := by
  unfold renderList
  split_ifs
  · exact iff_of_true rfl rfl
  · rw [Option.getD_some, Option.getD_some, Option.some.injEq]

/-- One event makes a difference if and only if one of its fields does. -/
theorem handleEvent_safe_iff {page : Page} (hanswer : Plain page.answer) (event : AgentEvent F) :
    handleEvent (pageRenderers stringify) page event =
        handleEvent (safeRenderers stringify) page event ↔ PlainEvent event := by
  cases event with
  | token text =>
    have h := renderCitations_safe_iff (page.answer ++ text)
    rw [plain_append, and_iff_right hanswer] at h
    simp only [handleEvent, pageRenderers, safeRenderers, Page.mk.injEq, true_and, and_true]
    exact h
  | sources sources =>
    simp only [handleEvent, pageRenderers, safeRenderers, Page.mk.injEq, true_and, and_true]
    exact renderList_getD_iff.trans (renderSources_safe_iff sources)
  | trace trace =>
    simp only [handleEvent, pageRenderers, safeRenderers, Page.mk.injEq, true_and]
    exact renderList_getD_iff.trans (renderTrace_safe_iff stringify trace)
  | _ => exact iff_of_true rfl trivial

/-- The page is at all times what it would be with every field escaped, if and only if no field
that is not escaped needs it. -/
theorem stream_safe_iff (events : List (AgentEvent F)) :
    (∀ seen, seen <+: events →
        shown (pageRenderers stringify) seen = shown (safeRenderers stringify) seen) ↔
      ∀ event ∈ events, PlainEvent event := by
  induction events using List.reverseRecOn with
  | nil =>
    refine iff_of_true ?_ fun _ h => absurd h List.not_mem_nil
    intro seen h
    rw [List.prefix_nil.mp h]
    rfl
  | append_singleton events event ih =>
    rw [List.forall_mem_append, List.forall_mem_singleton, ← ih]
    constructor
    · intro h
      have hbefore : ∀ seen, seen <+: events →
          shown (pageRenderers stringify) seen = shown (safeRenderers stringify) seen :=
        fun seen hseen => h seen (hseen.trans (List.prefix_append _ _))
      refine ⟨hbefore, ?_⟩
      have hlast := h _ List.prefix_rfl
      rw [shown_concat, shown_concat, ← hbefore events List.prefix_rfl] at hlast
      exact (handleEvent_safe_iff (plain_answer (ih.mp hbefore) _) event).mp hlast
    · rintro ⟨hbefore, hevent⟩ seen hseen
      rcases List.prefix_concat_iff.mp hseen with rfl | hseen
      · rw [shown_concat, shown_concat, ← hbefore events List.prefix_rfl]
        exact (handleEvent_safe_iff (plain_answer (ih.mp hbefore) _) event).mpr hevent
      · exact hbefore seen hseen

end Stream

/-- The renderers escape all their fields if and only if the answer, the source type, document
and title of every source and the tool of every step contain nothing that needs escaping; over a
stream, the page is what it would be with all fields escaped if and only if this holds of all
events. -/
theorem payload_escaped_iff (stringify : Json F → Text) :
    (∀ answer sources (trace : List (TraceStep F)),
      (renderCitations answer = (citationParts answer).flatMap Part.safe ∧
        renderSources sources = renderList sourceParts Part.safe sources ∧
        renderTrace stringify trace = renderList (stepParts stringify) Part.safe trace) ↔
      (Plain answer ∧ (∀ s ∈ sources, Plain s.sourceType ∧ Plain s.docId ∧ Plain s.title) ∧
        ∀ t ∈ trace, Plain t.tool)) ∧
    ∀ events : List (AgentEvent F), (∀ seen, seen <+: events →
        shown (pageRenderers stringify) seen = shown (safeRenderers stringify) seen) ↔
      ∀ event ∈ events, PlainEvent event := by
  constructor
  · intro answer sources trace
    rw [renderCitations_safe_iff, renderSources_safe_iff, renderTrace_safe_iff]
  · intro events
    exact stream_safe_iff events

/-- An answer with a tag, and a source whose title has one, reach the page as they are. -/
theorem tag_reaches_page :
    renderCitations "<b>[1]".toList = "<b><span class=\"cite\">[1]</span>".toList ∧
      renderCitations "<b>[1]".toList ≠ (citationParts "<b>[1]".toList).flatMap Part.safe ∧
      renderSources [⟨1, [], "RB-1".toList, "runbook".toList, "<b>".toList, [], 0, 0⟩] ≠
        renderList sourceParts Part.safe
          [⟨1, [], "RB-1".toList, "runbook".toList, "<b>".toList, [], 0, 0⟩] := by
  refine ⟨by decide, ?_, ?_⟩
  · rw [ne_eq, renderCitations_safe_iff]
    decide
  · rw [ne_eq, renderSources_safe_iff]
    decide

end GroundedOps.Frontend
