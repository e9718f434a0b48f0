import GroundedOps.Api.Chat
import GroundedOps.Frontend.Renderers
import GroundedOps.Library.Program
import GroundedOps.Library.Splitting
import GroundedOps.Library.Utf8Stream
import GroundedOps.Python.JsonDecoder

/-!
# Reading the event stream

The page decodes what arrives, splits its buffer at blank lines, keeps the part behind the
last one and handles the others. The reads may cut the bytes anywhere.
-/

namespace GroundedOps.Frontend.EventStream

open Python Scan Program Agent Api

variable {F : Type}

/-! ### Separators -/

/-- The pattern `\r?\n` at the head of the text. -/
def lineBreakAt : Text → Option Text
  | '\r' :: '\n' :: s => some s
  | '\n' :: s => some s
  | _ => none

/-- The pattern `\r?\n\r?\n`: a carriage return that no newline follows matches neither half. -/
def blankLineAt (s : Text) : Option Text := (lineBreakAt s).bind lineBreakAt

theorem length_lineBreakAt {s r : Text} (h : lineBreakAt s = some r) : r.length < s.length := by
  unfold lineBreakAt at h
  split at h
  · cases h
    simp
  · cases h
    simp
  · cases h

theorem length_blankLineAt {s r : Text} (h : blankLineAt s = some r) : r.length < s.length := by
  obtain ⟨t, ht, hr⟩ := Option.bind_eq_some_iff.mp h
  exact (length_lineBreakAt hr).trans (length_lineBreakAt ht)

def lineBreak : Matcher Char Unit where
  run s := (lineBreakAt s).map fun r => ((), r)
  shorter h := by
    obtain ⟨r, hr, heq⟩ := Option.map_eq_some_iff.mp h
    cases heq
    exact length_lineBreakAt hr

def blankLine : Matcher Char Unit where
  run s := (blankLineAt s).map fun r => ((), r)
  shorter h := by
    obtain ⟨r, hr, heq⟩ := Option.map_eq_some_iff.mp h
    cases heq
    exact length_blankLineAt hr

/-! ### Handling -/

/-- What `trim` removes. -/
def trimmed : List ℕ :=
  [0x9, 0xa, 0xb, 0xc, 0xd, 0x20, 0xa0, 0x1680, 0x2000, 0x2001, 0x2002, 0x2003, 0x2004, 0x2005,
    0x2006, 0x2007, 0x2008, 0x2009, 0x200a, 0x2028, 0x2029, 0x202f, 0x205f, 0x3000, 0xfeff]

def trim (s : Text) : Text := stripBy (fun c => trimmed.contains c.toNat) s

/-- What the page uses of the browser: `parse` is `none` where `JSON.parse` throws, `textOf` is
the text of a value that is appended to a string, `none` for an undefined one, and `isZero`
says which numbers are false. -/
structure Browser (F : Type) where
  parse : Text → Option (Json F)
  textOf : Option (Json F) → Text
  isZero : F → Bool

/-- The variables of `ask`, the elements of the page that take markup, and for every call of
`handleEvent` the type and the payload it went on with. The elements of the sources and of the
trace are kept as the values their templates were filled from. -/
structure Reader (F : Type) where
  decoder : Utf8.Decoder := {}
  buffer : Text := []
  answer : Text := []
  answerHtml : Text := []
  sources : List (Json F) := []
  trace : List (Json F) := []
  handled : List (Option (Text × Json F)) := []

abbrev ReaderM (F : Type) := EStateM Exn (Reader F)

/-- The loop over the lines of a block. -/
def readLine (fields : Text × Text) (line : Text) : Text × Text :=
  if "event:".toList.isPrefixOf line then (trim (line.drop 6), fields.2)
  else if "data:".toList.isPrefixOf line then (fields.1, fields.2 ++ trim (line.drop 5))
  else fields

def readFields (raw : Text) : Text × Text :=
  (splitBy lineBreak raw).foldl readLine ("message".toList, [])

/-- `payload[name]` -/
def member (payload : Json F) (name : Text) : Except Exn (Option (Json F)) :=
  match payload with
  | .null => .error .typeError
  | .obj members => .ok (Json.lookup name members)
  | _ => .ok none

/-- `answer += payload.text` -/
def appendText (b : Browser F) (answer : Text) : Option (Json F) → Text
  | some (.str s) => answer ++ s
  | value => answer ++ b.textOf value

variable (b : Browser F)

def truthy : Json F → Bool
  | .null => false
  | .bool x => x
  | .int n => n != 0
  | .float x => !b.isZero x
  | .str s => !s.isEmpty
  | .arr _ => true
  | .obj _ => true

/-- `(value || 0).toFixed(…)`: only numbers have the method. -/
def toFixedOf : Option (Json F) → Except Exn Unit
  | none | some .null | some (.int _) | some (.float _) => .ok ()
  | some value => if truthy b value then .error .typeError else .ok ()

/-- The values of a list that are shown; nothing is set for one without a length, and only
arrays can be mapped. -/
def listed : Option (Json F) → Except Exn (Option (List (Json F)))
  | some (.arr items) => .ok (if items.isEmpty then none else some items)
  | some (.str s) => if s.isEmpty then .ok none else .error .typeError
  | some (.obj members) =>
    if (Json.lookup "length".toList members).any (truthy b) then .error .typeError else .ok none
  | _ => .ok none

/-- The template of a source reads members of the value. -/
def fillSource : Json F → Except Exn Unit
  | .null => .error .typeError
  | _ => .ok ()

/-- The template of a step of the trace also formats a number. -/
def fillStep : Json F → Except Exn Unit
  | .null => .error .typeError
  | .obj members => toFixedOf b (Json.lookup "latency_ms".toList members)
  | _ => .ok ()

def attempt {α : Type} : Except Exn α → ReaderM F α
  | .error e => throw e
  | .ok a => pure a

/-- Every branch reads a member of the payload; the others set text content only. -/
def showEvent (type : Text) (payload : Json F) : ReaderM F Unit := do
  if type = "token".toList then
    let value ← attempt (member payload "text".toList)
    modify fun s =>
      let answer := appendText b s.answer value
      { s with answer, answerHtml := renderCitations answer }
  else if type = "sources".toList then
    let value ← attempt (member payload "sources".toList)
    let items ← attempt (listed b value)
    attempt ((items.getD []).forM fillSource)
    modify fun s => { s with sources := items.getD s.sources }
  else if type = "trace".toList then
    let value ← attempt (member payload "trace".toList)
    let items ← attempt (listed b value)
    attempt ((items.getD []).forM (fillStep b))
    modify fun s => { s with trace := items.getD s.trace }
  else if type = "done".toList then
    let cost ← attempt (member payload "cost_usd".toList)
    attempt (toFixedOf b cost)
  else if type ∈ eventTypes then
    let _ ← attempt (member payload "text".toList)

def note (call : Option (Text × Json F)) : ReaderM F Unit :=
  modify fun s => { s with handled := s.handled ++ [call] }

def handleEvent (raw : Text) : ReaderM F Unit :=
  let fields := readFields raw
  if fields.2.isEmpty then note none
  else
    match b.parse fields.2 with
    | none => note none
    | some payload => do
      note (some (fields.1, payload))
      showEvent b fields.1 payload

def handleEvents : List Text → ReaderM F Unit
  | [] => pure ()
  | raw :: blocks => do
    handleEvent b raw
    handleEvents blocks

/-- One round of the loop of `ask`; the last part of the buffer stays in it. -/
def readValue (value : List UInt8) : ReaderM F Unit := do
  let s ← get
  let decoded := s.decoder.decode value
  let parts := splitParts blankLine (s.buffer ++ decoded.2)
  set { s with decoder := decoded.1, buffer := parts.2 }
  handleEvents b parts.1

def ask : List (List UInt8) → ReaderM F Unit
  | [] => pure ()
  | value :: reads => do
    readValue b value
    ask reads

/-! ### The separators on a stream -/

section Separators

variable {c : Char} {s r t : Text}

/-- A text on one line. -/
def OneLine (s : Text) : Prop := '\r' ∉ s ∧ '\n' ∉ s

theorem OneLine.ne (h : OneLine s) {c : Char} (hc : c ∈ s) : c ≠ '\r' ∧ c ≠ '\n' := by
  constructor
  · rintro rfl
    exact h.1 hc
  · rintro rfl
    exact h.2 hc

end Separators

/-! ### The blocks of the stream -/

section Blocks

variable {py : Interpreter F} {float : ℚ → F}

end Blocks

/-! ### Events read one by one -/

section Reading

variable {py : Interpreter F} {float : ℚ → F} {b : Browser F}

/-- The events of the run among those of the response. -/
def agentEvents (events : List (StreamEvent F)) : List (AgentEvent F) :=
  events.filterMap fun
    | .agent event => some event
    | .error _ => none

def setSources (last : List Source) : AgentEvent F → List Source
  | .sources sources => if sources.isEmpty then last else sources
  | _ => last

def setTrace (last : List (TraceStep F)) : AgentEvent F → List (TraceStep F)
  | .trace trace => if trace.isEmpty then last else trace
  | _ => last

/-- The sources and the trace that are shown after these events, the last that are not empty. -/
def sourcesOf (events : List (AgentEvent F)) : List Source := events.foldl setSources []

def traceOf (events : List (AgentEvent F)) : List (TraceStep F) := events.foldl setTrace []

/-- What was read is on the page: the answer, and the sources and the trace that its elements
are filled from. -/
structure Displays (float : ℚ → F) (stringify : Json F → Text) (page : Page)
    (cited : List Source) (steps : List (TraceStep F)) (s : Reader F) : Prop where
  answer : page.answer = s.answer
  answerHtml : page.answerHtml = s.answerHtml
  sources : s.sources = cited.map sourceData
  sourcesHtml : page.sourcesHtml = (renderSources cited).getD []
  trace : s.trace = steps.map (stepData float)
  traceHtml : page.traceHtml = (renderTrace stringify steps).getD []

/-- What was read is what the page shows after these events. -/
def Matches (float : ℚ → F) (stringify : Json F → Text) (events : List (AgentEvent F))
    (s : Reader F) : Prop :=
  Displays float stringify (shown (pageRenderers stringify) events) (sourcesOf events)
    (traceOf events) s

/-- What the page has after these events, if it had `s` before them. -/
structure Shown (float : ℚ → F) (stringify : Json F → Text) (s s' : Reader F)
    (events : List (StreamEvent F)) : Prop where
  handled : s'.handled =
    s.handled ++ events.map fun event => some (event.type, .obj (event.data float))
  answer : s'.answer = s.answer ++ events.flatMap StreamEvent.tokenText
  page : ∀ before, Matches float stringify before s →
    Matches float stringify (before ++ agentEvents events) s'

variable {stringify : Json F → Text}

theorem Shown.refl (s : Reader F) : Shown float stringify s s [] where
  handled := (List.append_nil _).symm
  answer := (List.append_nil _).symm
  page before h := by rwa [agentEvents, List.filterMap_nil, List.append_nil]

theorem Shown.trans {s s' s'' : Reader F} {events events' : List (StreamEvent F)}
    (h : Shown float stringify s s' events) (h' : Shown float stringify s' s'' events') :
    Shown float stringify s s'' (events ++ events') where
  handled := by rw [h'.handled, h.handled, List.map_append, List.append_assoc]
  answer := by rw [h'.answer, h.answer, List.flatMap_append, List.append_assoc]
  page before hbefore := by
    rw [agentEvents, List.filterMap_append, ← List.append_assoc]
    exact h'.page _ (h.page before hbefore)

end Reading

/-! ### A stream that arrives byte by byte -/

end GroundedOps.Frontend.EventStream
