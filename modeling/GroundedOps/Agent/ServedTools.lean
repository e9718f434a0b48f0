import GroundedOps.Agent.Provenance
import GroundedOps.Agent.ToolRecords
import GroundedOps.McpClient.Client
import GroundedOps.McpServer.ToolResults
import GroundedOps.Python.JsonDecoder

/-!
# Chunk records come from the search tool

The session hands on what the tools of the server return, or the text of an error. The records
that the agent reads out of it are excerpts of stored rows: no other tool, no error and no call
that was given up yields one.
-/

namespace GroundedOps.Agent

open Python Ingestion Retrieval McpServer McpClient Security

variable {F D N : Type} {dim : ℕ}

/-- The structured content of a tool result: the value, or the value under a key. -/
inductive Carries (value : Json F) : Json F → Prop
  | bare : value ≠ .null → Carries value value
  | wrapped : Carries value (.obj [("result".toList, value)])

/-- What stands in front of the message of an error, the last of them for a call given up. -/
def errorOpenings : List Text :=
  ["Error executing tool ".toList, "Unknown tool: ".toList, "Input validation error: ".toList,
    "Output validation error: ".toList, "Tool error: ".toList]

def ErrorText (text : Text) : Prop := ∃ opening ∈ errorOpenings, opening <+: text

/-- The chunk is what the search tool shows of the row. -/
structure Excerpts (c : RetrievedChunk F) (r : ChunkRow F) : Prop where
  chunkId : c.chunkId = r.chunkId
  docId : c.docId = r.docId
  sourceType : c.sourceType = r.sourceType
  title : c.title = r.title
  content : c.content = (join " ".toList (split r.content)).take 300
  charStart : c.charStart = 0
  charEnd : c.charEnd = 0

/-! ### Results without records -/

section Recordless

variable (py : Interpreter F)

theorem chunkRecords_recordless {items : List (Json F)}
    (h : ∀ members, .obj members ∈ items → Json.lookup "chunk_id".toList members = none) :
    chunkRecords py items = .ok [] := by
  induction items with
  | nil => rfl
  | cons item items ih =>
    have hitem : chunkRecord py item = .ok none := by
      cases item with
      | obj members => rw [chunkRecord, h members List.mem_cons_self]
      | _ => rfl
    have hitems := ih fun members hmem => h members (List.mem_cons_of_mem _ hmem)
    rw [chunkRecords, hitem, hitems]
    rfl

/-- A value without records yields none, bare or under a key. -/
theorem extractChunkRecords_recordless {value structured : Json F} (h : Recordless value)
    (hcarries : Carries value structured) (text : Text) (isError : Bool) :
    extractChunkRecords py ⟨text, structured, isError⟩ = .ok [] := by
  cases hcarries with
  | bare hne =>
    cases h with
    | null => exact absurd rfl hne
    | object hresult =>
      simp only [extractChunkRecords, outcomeData, ok_bind, hresult, Option.getD_none]
    | rows hitems => exact chunkRecords_recordless py hitems
  | wrapped =>
    cases h with
    | null => rfl
    | object hresult => rfl
    | rows hitems => exact chunkRecords_recordless py hitems

theorem extractChunkRecords_arr {items : List (Json F)} {structured : Json F}
    (h : Carries (.arr items) structured) (text : Text) (isError : Bool) :
    extractChunkRecords py ⟨text, structured, isError⟩ = chunkRecords py items := by
  cases h with
  | bare _ => rfl
  | wrapped => rfl

/-- The text of an error is no JSON document. -/
theorem loads_errorText {text : Text} (h : ErrorText text) :
    Json.loads py text = .error .valueError := by
  obtain ⟨opening, hopening, rest, rfl⟩ := h
  simp only [errorOpenings, List.mem_cons, List.not_mem_nil, or_false] at hopening
  rcases hopening with rfl | rfl | rfl | rfl | rfl <;> rfl

theorem extractChunkRecords_error (hloads : ∀ text, py.loads text = Json.loads py text)
    {text : Text} (h : ErrorText text) (isError : Bool) :
    extractChunkRecords py ⟨text, .null, isError⟩ = .ok [] := by
  simp only [extractChunkRecords, outcomeData, hloads, loads_errorText py h]
  rfl

end Recordless

/-! ### Results of the search tool -/

section Search

variable {py : Interpreter F} {round4 : F → F}

theorem excerpts_searchRecord {c got : RetrievedChunk F} {r : ChunkRow F} (hc : Presents c r)
    (h : chunkRecord py (.obj (searchRecord round4 c)) = .ok (some got)) : Excerpts got r := by
  rw [chunkRecord, lookup_chunkId] at h
  obtain ⟨start, hstart, h⟩ := bind_eq_ok.mp h
  obtain ⟨stop, hstop, h⟩ := bind_eq_ok.mp h
  obtain ⟨score, -, h⟩ := bind_eq_ok.mp h
  cases h
  cases hstart
  cases hstop
  have hcontent : (getOr py (searchRecord round4 c) "snippet".toList
      (getOr py (searchRecord round4 c) "content".toList (.str []))).toStr py =
        (join " ".toList (split c.content)).take 300 := by
    have hsnippet : Json.lookup "snippet".toList (searchRecord round4 c) =
        some (.str ((join " ".toList (split c.content)).take 300)) := rfl
    have hnone : getOr py (searchRecord round4 c) "content".toList (.str []) = .str [] := rfl
    rw [getOr, hsnippet, hnone]
    cases htext : (join " ".toList (split c.content)).take 300 <;> rfl
  rw [Presents] at hc
  constructor
  · rw [hc]
    rfl
  · rw [hc]
    rfl
  · rw [hc]
    rfl
  · rw [hc]
    rfl
  · rw [hcontent, hc]
    rfl
  · rfl
  · rfl

/-- Whatever is read from the records of chunks goes back to one of the chunks. -/
theorem exists_chunk_of_chunkRecords {chunks got : List (RetrievedChunk F)}
    (h : chunkRecords py ((chunks.map (searchRecord round4)).map .obj) = .ok got) :
    ∀ g ∈ got, ∃ c ∈ chunks, chunkRecord py (.obj (searchRecord round4 c)) = .ok (some g) := by
  induction chunks generalizing got with
  | nil =>
    cases h
    simp
  | cons c chunks ih =>
    rw [List.map_cons, List.map_cons, chunkRecords] at h
    obtain ⟨head, hhead, h⟩ := bind_eq_ok.mp h
    obtain ⟨tail, htail, h⟩ := bind_eq_ok.mp h
    cases h
    intro g hg
    rcases List.mem_append.mp hg with hg | hg
    · obtain rfl := Option.mem_toList.mp hg
      exact ⟨c, List.mem_cons_self, hhead⟩
    · obtain ⟨c', hc', hg⟩ := ih htail g hg
      exact ⟨c', List.mem_cons_of_mem _ hc', hg⟩

end Search

/-! ### What the session answers -/

section Served

variable [LinearOrder F] [Zero F] [Add F] [One F] [Sub F] (reciprocal : ℕ → F) (round4 : F → F)
  (py : Interpreter F) (cal : Calendar F D N) (backend : Backend F D N)
  (observed : ChunkTable F dim → Prop)

/-- The session answers with the result of a tool, which has read observed states of the chunks
and any state of the other tables, or it answers with an error, too late or not at all. -/
inductive Served : SessionAnswer F → Prop
  | searched {server dense keyword t t' query sourceTypes topK records structured content} :
      observed t → observed t' → dense.Perm t.rows.values → keyword.Perm t'.rows.values →
      searchRecords reciprocal round4 server dense keyword query sourceTypes topK = .ok records →
      Carries (.arr (records.map .obj)) structured → Served (.returned ⟨content, structured, false⟩)
  | queried {call : McpServer.Call F} {s : State F D N} {executed executed'}
      {value structured : Json F} {content} :
      call.runOn backend py cal s executed = .ok value executed' → Carries value structured →
      Served (.returned ⟨content, structured, false⟩)
  | described {structured content} : Carries schema structured →
      Served (.returned ⟨content, structured, false⟩)
  | failed {content} : ErrorText (join ['\n'] (content.filterMap ContentBlock.text)) →
      Served (.returned ⟨content, .null, true⟩)
  | timedOut : Served .timedOut
  | raised (e : Exn) : Served (.raised e)

variable {reciprocal round4 py cal backend observed}

/-- What is read out of an answer of the search tool goes back to the rows it has read. -/
theorem excerpts_of_searchRecords {server : SearchServer F} {dense keyword : List (ChunkRow F)}
    {t t' : ChunkTable F dim} (hdense : dense.Perm t.rows.values)
    (hkeyword : keyword.Perm t'.rows.values) {query : Text} {sourceTypes : Option (List Text)}
    {topK : ℤ} {records : List (List (Text × Json F))}
    (hrecords : searchRecords reciprocal round4 server dense keyword query sourceTypes topK =
      .ok records)
    {chunks : List (RetrievedChunk F)}
    (hchunks : chunkRecords py (records.map .obj) = .ok chunks) :
    ∀ c ∈ chunks, ∃ r, (r ∈ t.rows.values ∨ r ∈ t'.rows.values) ∧ Excerpts c r := by
  obtain ⟨found, hfound, hmap⟩ := bind_eq_ok.mp hrecords
  cases hmap
  have hreads : ReadsTables (buildRetrievalService server dense keyword) t t' :=
    ⟨⟨_, dense, hdense, rfl⟩, _, keyword, hkeyword, rfl⟩
  intro c hc
  obtain ⟨c', hc', hrecord⟩ := exists_chunk_of_chunkRecords hchunks c hc
  obtain ⟨r, hr, hpresents⟩ := retrieve_presents hreads hfound c' hc'
  exact ⟨r, hr, excerpts_searchRecord hpresents hrecord⟩

/-- Every record of a tool result is an excerpt of an observed row. -/
theorem Served.excerpts (laws : DriverLaws backend)
    (hloads : ∀ text, py.loads text = Json.loads py text) {answer : SessionAnswer F}
    (h : Served reciprocal round4 py cal backend observed answer) {name : Text} {timeout : ℕ}
    {outcome : ToolOutcome F} (hcall : executorCall answer name timeout = .ok outcome)
    {chunks : List (RetrievedChunk F)} (hchunks : extractChunkRecords py outcome = .ok chunks) :
    ∀ c ∈ chunks, ∃ t r, observed t ∧ r ∈ t.rows.values ∧ Excerpts c r := by
  have hnone : ∀ {outcome : ToolOutcome F}, extractChunkRecords py outcome = .ok [] →
      extractChunkRecords py outcome = .ok chunks →
        ∀ c ∈ chunks, ∃ t r, observed t ∧ r ∈ t.rows.values ∧ Excerpts c r := by
    intro outcome hempty hsome c hc
    cases hempty.symm.trans hsome
    cases hc
  cases h with
  | searched ht ht' hdense hkeyword hrecords hcarries =>
    cases hcall
    have hread := (extractChunkRecords_arr py hcarries _ _).symm.trans hchunks
    intro c hc
    obtain ⟨r, hr, hexcerpts⟩ := excerpts_of_searchRecords hdense hkeyword hrecords hread c hc
    rcases hr with hr | hr
    · exact ⟨_, r, ht, hr, hexcerpts⟩
    · exact ⟨_, r, ht', hr, hexcerpts⟩
  | queried hrun hcarries =>
    cases hcall
    exact hnone (extractChunkRecords_recordless py (recordless_runOn laws hrun) hcarries _ _)
      hchunks
  | described hcarries =>
    cases hcall
    exact hnone (extractChunkRecords_recordless py recordless_schema hcarries _ _) hchunks
  | failed htext =>
    cases hcall
    exact hnone (extractChunkRecords_error py hloads htext _) hchunks
  | timedOut => cases hcall
  | raised e => cases hcall

end Served

end GroundedOps.Agent
