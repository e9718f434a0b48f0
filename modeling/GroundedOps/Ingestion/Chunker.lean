import GroundedOps.Python.Text

/-!
# Chunking of documents

The tokenizer only sizes the chunks; the pieces are slices of the document. Markdown
is split at its header lines first. The tokenizer itself is arbitrary.
-/

namespace GroundedOps.Ingestion

open Python

def targetTokens : ℕ := 500
def overlapTokens : ℕ := 80

/-- Position and text of one chunk in its document. -/
structure ChunkPiece where
  chunkIndex : ℕ
  charStart : ℕ
  charEnd : ℕ
  content : Text

structure Tokenizer where
  encode : Text → Except Exn (List ℕ)
  decode : List ℕ → Text

/-- The characters behind which a line ends. -/
def lineEnds : List ℕ := [0xa, 0xb, 0xc, 0xd, 0x1c, 0x1d, 0x1e, 0x85, 0x2028, 0x2029]

/-- Puts a character in front of the first line. -/
def consLine (c : Char) : List Text → List Text
  | [] => [[c]]
  | line :: lines => (c :: line) :: lines

/-- `str.splitlines(keepends=True)` -/
def splitlines : Text → List Text
  | [] => []
  | '\r' :: '\n' :: s => ['\r', '\n'] :: splitlines s
  | c :: s => if lineEnds.contains c.toNat then [c] :: splitlines s else consLine c (splitlines s)

def isHeader (line : Text) : Bool := (line.dropWhile isSpace).head? == some '#'

structure Sections where
  sections : List (Text × ℕ) := []
  cur : List Text := []
  sectionOffset : ℕ := 0
  offset : ℕ := 0

def Sections.push (s : Sections) (line : Text) : Sections :=
  let s :=
    if isHeader line && !s.cur.isEmpty then
      { s with
        sections := s.sections ++ [(s.cur.flatten, s.sectionOffset)]
        cur := []
        sectionOffset := s.offset }
    else s
  { s with cur := s.cur ++ [line], offset := s.offset + line.length }

/-- The sections of a Markdown text with their offsets. -/
def splitMarkdownSections (text : Text) : List (Text × ℕ) :=
  let s := (splitlines text).foldl Sections.push {}
  if s.cur.isEmpty then s.sections else s.sections ++ [(s.cur.flatten, s.sectionOffset)]

example : splitMarkdownSections "a\n# b\r\nc".toList =
    [("a\n".toList, 0), ("# b\r\nc".toList, 2)] := by decide

section Chunks

variable (enc : Tokenizer)

def prefixChars (tokens : List ℕ) (k : ℕ) : ℕ :=
  if k = 0 then 0 else (enc.decode (tokens.take k)).length

/-- The loop over the windows of tokens; every round advances by at least one token, so
`fuel` need not exceed their number. -/
def windowPieces (text : Text) (tokens : List ℕ) (offset target step : ℕ) :
    ℕ → ℕ → ℕ → List ChunkPiece × ℕ
  | 0, _, index => ([], index)
  | fuel + 1, i, index =>
    if tokens.length ≤ i then ([], index)
    else
      let stop := min (i + target) tokens.length
      let localStart := prefixChars enc tokens i
      let localEnd := prefixChars enc tokens stop
      let content := (text.take localEnd).drop localStart
      let piece : List ChunkPiece :=
        if (strip content).isEmpty then []
        else [⟨index, offset + localStart, offset + localEnd, content⟩]
      let index := index + piece.length
      if stop = tokens.length then (piece, index)
      else
        let rest := windowPieces text tokens offset target step fuel (i + step) index
        (piece ++ rest.1, rest.2)

def tokenChunks (text : Text) (offset startIndex target overlap : ℕ) :
    Except Exn (List ChunkPiece × ℕ) := do
  let tokens ← enc.encode text
  let step := max 1 (target - overlap)
  return windowPieces enc text tokens offset target step tokens.length 0 startIndex

/-- The pieces of the sections; the chunk index runs on from one to the next. -/
def sectionChunks (target overlap : ℕ) : List (Text × ℕ) → ℕ → Except Exn (List ChunkPiece)
  | [], _ => .ok []
  | (text, offset) :: sections, index => do
    let (sub, index) ← tokenChunks enc text offset index target overlap
    let rest ← sectionChunks target overlap sections index
    return sub ++ rest

def chunkDocument (text : Text) (markdown : Bool) (target overlap : ℕ) :
    Except Exn (List ChunkPiece) := do
  if markdown then sectionChunks enc target overlap (splitMarkdownSections text) 0
  else
    let (pieces, _) ← tokenChunks enc text 0 0 target overlap
    return pieces

end Chunks

end GroundedOps.Ingestion
