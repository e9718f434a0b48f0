import GroundedOps.Agent.Orchestrator
import GroundedOps.McpServer.SearchRecords

/-!
# Chunk records across the tool boundary

The search tool writes records, the loop reads them back. The reader has a default for every
member but the identifier; the writer leaves out the character span.
-/

namespace GroundedOps.Agent

open Python Ingestion Retrieval McpServer

variable {F : Type}

/-- The structured content of a tool that returns a list: the list, under a key or not. -/
inductive Structured (records : List (List (Text × Json F))) : Json F → Prop
  | bare : Structured records (.arr (records.map .obj))
  | wrapped : Structured records (.obj [("result".toList, .arr (records.map .obj))])

/-- A citation without its span. -/
def withoutSpan (p : Provenance) : Provenance := { p with charStart := 0, charEnd := 0 }

theorem withoutSpan_eq_self {p : Provenance} :
    withoutSpan p = p ↔ p.charStart = 0 ∧ p.charEnd = 0 := by
  obtain ⟨chunkId, docId, sourceType, title, charStart, charEnd⟩ := p
  simp [withoutSpan, eq_comm]

section Extract

variable (py : Interpreter F) (round4 : F → F)

/-- A record comes back as a chunk with the span of an absent member. -/
theorem chunkRecord_searchRecord (c : RetrievedChunk F) :
    ∃ got, chunkRecord py (.obj (searchRecord round4 c)) = .ok (some got) ∧
      got.provenance = withoutSpan c.provenance := by
  have hscore : ∃ score, (getOr py (searchRecord round4 c) "score".toList
      (.float py.zero)).toFloat py = .ok score := by
    have hlookup : Json.lookup "score".toList (searchRecord round4 c) =
        some (.float (round4 c.score)) := rfl
    rw [getOr, hlookup]
    dsimp only
    split_ifs
    · exact ⟨_, rfl⟩
    · exact ⟨_, rfl⟩
  obtain ⟨score, hscore⟩ := hscore
  have hstart : getOr py (searchRecord round4 c) "char_start".toList (.int 0) = .int 0 := rfl
  have hend : getOr py (searchRecord round4 c) "char_end".toList (.int 0) = .int 0 := rfl
  rw [chunkRecord, lookup_chunkId]
  dsimp only
  rw [hscore, hstart, hend]
  exact ⟨_, rfl, rfl⟩

theorem chunkRecords_searchRecords (chunks : List (RetrievedChunk F)) :
    ∃ got, chunkRecords py ((chunks.map (searchRecord round4)).map .obj) = .ok got ∧
      got.map RetrievedChunk.provenance =
        chunks.map fun c => withoutSpan c.provenance := by
  induction chunks with
  | nil => exact ⟨[], rfl, rfl⟩
  | cons c chunks ih =>
    obtain ⟨head, hhead, hsame⟩ := chunkRecord_searchRecord py round4 c
    obtain ⟨tail, htail, hrest⟩ := ih
    refine ⟨head :: tail, ?_, ?_⟩
    · rw [List.map_cons, List.map_cons, chunkRecords, hhead, htail]
      rfl
    · rw [List.map_cons, List.map_cons, hsame, hrest]

/-- The chunks that are read back from either form of the content. -/
theorem extractChunkRecords_structured (chunks : List (RetrievedChunk F)) {structured : Json F}
    (h : Structured (chunks.map (searchRecord round4)) structured) (text : Text) (isError : Bool) :
    ∃ got, extractChunkRecords py ⟨text, structured, isError⟩ = .ok got ∧
      got.map RetrievedChunk.provenance =
        chunks.map fun c => withoutSpan c.provenance := by
  have hread : extractChunkRecords py ⟨text, structured, isError⟩ =
      chunkRecords py ((chunks.map (searchRecord round4)).map .obj) := by
    cases h with
    | bare => rfl
    | wrapped => rfl
  rw [hread]
  exact chunkRecords_searchRecords py round4 chunks

end Extract

section Boundary

variable [Zero F] [Add F] [One F] [Sub F] [LinearOrder F] {reciprocal : ℕ → F} {round4 : F → F}
  {server : SearchServer F} {dense keyword : List (ChunkRow F)} {query : Text}
  {sourceTypes : Option (List Text)} {topK : ℤ}

/-- The retrieved chunks survive the tool boundary if and only if none of them has a span. -/
theorem tool_records_survive_iff (py : Interpreter F) {records : List (List (Text × Json F))}
    {structured : Json F} (text : Text) (isError : Bool)
    (h : searchRecords reciprocal round4 server dense keyword query sourceTypes topK = .ok records)
    (hstructured : Structured records structured) :
    ∃ chunks got,
      searchChunks reciprocal server dense keyword query sourceTypes topK = .ok chunks ∧
      extractChunkRecords py ⟨text, structured, isError⟩ = .ok got ∧
      (got.map RetrievedChunk.provenance = chunks.map RetrievedChunk.provenance ↔
        ∀ c ∈ chunks, c.charStart = 0 ∧ c.charEnd = 0) := by
  rw [searchRecords, bind_eq_ok] at h
  obtain ⟨chunks, hchunks, hrecords⟩ := h
  cases hrecords
  obtain ⟨got, hgot, hprovenance⟩ :=
    extractChunkRecords_structured py round4 chunks hstructured text isError
  refine ⟨chunks, got, hchunks, hgot, ?_⟩
  rw [hprovenance, List.map_inj_left]
  simp only [withoutSpan_eq_self]
  rfl

end Boundary

/-- An interpreter for runs in which all numbers are rational and no text is read as a number. -/
def rationalInterpreter : Interpreter ℚ where
  loads _ := .error .valueError
  dumpsFloat _ := "0.0".toList
  reprFloat _ := "0.0".toList
  reprStr s := '\'' :: s ++ ['\'']
  zero := 0
  isZero x := x = 0
  floatOfInt n := .ok n
  floatOfText _ := .error .valueError
  intOfFloat x := .ok (if 0 ≤ x then ⌊x⌋ else ⌈x⌉)

def wrappedRecords (records : List (List (Text × Json ℚ))) : Json ℚ :=
  .obj [("result".toList, .arr (records.map .obj))]

theorem tool_records_survive_iff_units : ∃ records, unitRecords 1 = .ok records ∧
    ∃ chunks got,
      searchChunks inverse unitServer unitRows unitRows "outage".toList none 1 = .ok chunks ∧
      extractChunkRecords rationalInterpreter ⟨[], wrappedRecords records, false⟩ = .ok got ∧
      (got.map RetrievedChunk.provenance = chunks.map RetrievedChunk.provenance ↔
        ∀ c ∈ chunks, c.charStart = 0 ∧ c.charEnd = 0) := by
  have hsome : (unitRecords 1).toOption.isSome = true := by decide +kernel
  obtain ⟨records, h⟩ := exists_ok_of_isSome hsome
  exact ⟨records, h, tool_records_survive_iff rationalInterpreter [] false h .wrapped⟩

/-- The best row has the span from zero to one; its citation has not. -/
theorem tool_record_loses_span : ∃ chunks got,
    searchChunks inverse unitServer unitRows unitRows "outage".toList none 1 = .ok chunks ∧
      extractChunkRecords rationalInterpreter
        ⟨[], wrappedRecords (chunks.map (searchRecord roundFourDigits)), false⟩ = .ok got ∧
      chunks.map (fun c => (c.charStart, c.charEnd)) = [(0, 1)] ∧
      got.map (fun c => (c.charStart, c.charEnd)) = [(0, 0)] := by
  have hspan : (searchChunks inverse unitServer unitRows unitRows "outage".toList none 1).toOption.map
      (fun chunks => chunks.map fun c => (c.charStart, c.charEnd)) = some [(0, 1)] := by
    decide +kernel
  obtain ⟨chunks, h, hchunks⟩ := exists_ok_of_map hspan
  obtain ⟨got, hgot, hprovenance⟩ := extractChunkRecords_structured rationalInterpreter
    roundFourDigits chunks .wrapped [] false
  refine ⟨chunks, got, h, hgot, hchunks, ?_⟩
  have hone : chunks.length = 1 := by simpa using congrArg List.length hchunks
  have hspans := congrArg (List.map fun p : Provenance => (p.charStart, p.charEnd)) hprovenance
  rw [List.map_map, List.map_map] at hspans
  obtain ⟨c, rfl⟩ := List.length_eq_one_iff.mp hone
  exact hspans

end GroundedOps.Agent
