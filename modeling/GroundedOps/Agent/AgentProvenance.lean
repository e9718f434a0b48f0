import GroundedOps.Agent.EntryOrigins
import GroundedOps.Agent.GuardrailBounds
import GroundedOps.Agent.ServedTools

/-!
# From documents to the sources of the agent

Whatever the model asks for and whatever calls of ingestion run beside the request, the agent
cites ingested documents only: its sources were found by the retrieval at the start or by the
search tool, and both read committed states of the table.
-/

namespace GroundedOps.Agent

open Python Llm Retrieval Ingestion McpServer McpClient Orchestrator

open Transition (Step)

variable {F D N : Type} {dim : ℕ}

/-- The table before the run of the transactions, or behind one of its steps. -/
def Observed (steps : List (Step (Writers F dim) (Act F))) (t : ChunkTable F dim) : Prop :=
  t = ({} : Writers F dim).table ∨ ∃ x ∈ steps, t = x.after.table

/-- The source cites a chunk of the document. The model was shown the slice that the chunk
stands for, or, if the search tool has found it, the excerpt of that tool without its place. -/
structure CitesChunk (log : List (Action F)) (doc : SourceDoc) (s : Source) : Prop where
  docId : s.docId = doc.docId
  sourceType : s.sourceType = doc.sourceType
  title : s.title = doc.title
  chunk : ∃ (i start stop : ℕ) (e : CitationEntry) (entries : List CitationEntry),
    s.chunkId = chunkId doc.docId i ∧ start < stop ∧ stop ≤ doc.text.length ∧
      s = Source.ofEntry e ∧ e.snippet = snippet e.content ∧
        e ∈ entries ∧ SentToModel log entries ∧
          (e.content = (doc.text.take stop).drop start ∧ s.charStart = start ∧ s.charEnd = stop ∨
            e.content = (join " ".toList (split ((doc.text.take stop).drop start))).take 300 ∧
              s.charStart = 0 ∧ s.charEnd = 0)

/-- The chunk shows a row of the table, whole or as the search tool does. -/
def ShowsRow (c : RetrievedChunk F) (r : ChunkRow F) : Prop := Presents c r ∨ Excerpts c r

/-! ### Observed rows -/

/-- Every row of an observed table is a slice of a document. -/
theorem fromDocument_of_observed {steps : List (Step (Writers F dim) (Act F))}
    {final : Writers F dim} (hrun : Transition.Run Ingestion.Steps {} steps final)
    (htokens : OnBytes final.calls) {t : ChunkTable F dim} (ht : Observed steps t) :
    ∀ r ∈ t.rows.values, FromDocument final.calls r := by
  intro r hr
  rcases ht with rfl | ⟨x, hx, rfl⟩
  · cases hr
  · obtain ⟨front, back, rfl⟩ := List.append_of_mem hx
    have hsplit : front ++ x :: back = (front ++ [x]) ++ back := by simp
    rw [hsplit] at hrun
    obtain ⟨u, hfront, hback⟩ := hrun.split
    obtain ⟨_, _, rfl, -, -⟩ := hfront.last
    have hcalls := calls_subset_of_run hback
    have htokens' : OnBytes u.calls := fun call hcall => htokens call (hcalls hcall)
    exact ((sound_of_run hfront sound_start).fromDocument htokens' r hr).mono hcalls

/-- A source that goes back to a row cites the document of the row. -/
theorem citesChunk {log : List (Action F)} {doc : SourceDoc} {r : ChunkRow F}
    (hrow : SliceOf doc r) {c : RetrievedChunk F} (hc : ShowsRow c r) {e : CitationEntry}
    (he : e = CitationEntry.ofChunk e.index c) {entries : List CitationEntry}
    (hentries : e ∈ entries) (hsent : SentToModel log entries) :
    CitesChunk log doc (Source.ofEntry e) := by
  have hsnippet : e.snippet = snippet e.content := by
    rw [he]
    rfl
  have hids : e.chunkId = r.chunkId ∧ e.docId = r.docId ∧ e.sourceType = r.sourceType ∧
      e.title = r.title := by
    rw [he]
    rcases hc with hpresents | hexcerpts
    · rw [hpresents]
      exact ⟨rfl, rfl, rfl, rfl⟩
    · exact ⟨hexcerpts.chunkId, hexcerpts.docId, hexcerpts.sourceType, hexcerpts.title⟩
  obtain ⟨hchunkId, hdocId, hsourceType, htitle⟩ := hids
  have hplace : e.content = (doc.text.take r.charEnd).drop r.charStart ∧
        e.charStart = r.charStart ∧ e.charEnd = r.charEnd ∨
      e.content = (join " ".toList (split ((doc.text.take r.charEnd).drop r.charStart))).take 300 ∧
        e.charStart = 0 ∧ e.charEnd = 0 := by
    rw [← hrow.content, he]
    rcases hc with hpresents | hexcerpts
    · left
      rw [hpresents]
      exact ⟨rfl, rfl, rfl⟩
    · right
      exact ⟨hexcerpts.content, hexcerpts.charStart, hexcerpts.charEnd⟩
  constructor
  · exact hdocId.trans hrow.docId
  · exact hsourceType.trans hrow.sourceType
  · exact htitle.trans hrow.title
  · exact ⟨r.chunkIndex, r.charStart, r.charEnd, e, entries, hchunkId.trans hrow.chunkId,
      hrow.start_lt, hrow.end_le, rfl, hsnippet, hentries, hsent, hplace⟩

section Runs

variable [LinearOrder F] [Zero F] [Add F] [One F] [Sub F] {reciprocal : ℕ → F} {round4 : F → F}
  {backend : Backend F D N} {cal : Calendar F D N}

/-- The retrieval of a run reads observed states of the table. -/
def RetrievesFrom (reciprocal : ℕ → F) (observed : ChunkTable F dim → Prop)
    (svc : Services F) : Prop :=
  ∀ log question topK filters, ∃ (service : RetrievalService F) (t t' : ChunkTable F dim),
    observed t ∧ observed t' ∧ ReadsTables service t t' ∧
      svc.retrieve log question topK filters =
        service.retrieve reciprocal question topK filters false

/-- A chunk that the history of a run accounts for shows an observed row. -/
theorem showsRow_of_origin {observed : ChunkTable F dim → Prop} {svc : Services F}
    {session : Session F} {settings : Settings} {question : Text} {topK : Option ℤ}
    {filters : Option SearchFilters} (laws : DriverLaws backend)
    (hloads : ∀ text, svc.py.loads text = Json.loads svc.py text)
    (hretrieve : RetrievesFrom reciprocal observed svc)
    (hsession : ∀ log tool arguments timeout,
      Served reciprocal round4 svc.py cal backend observed (session log tool arguments timeout))
    {c : RetrievedChunk F} (h : Origin (overSession svc session)
      (run (overSession svc session) settings question topK filters).2.log c) :
    ∃ t r, observed t ∧ r ∈ t.rows.values ∧ ShowsRow c r := by
  have hrecorded := run_recorded (overSession svc session) settings question topK filters
  cases h with
  | retrieved hmem hc =>
    obtain ⟨before, hanswer⟩ := hrecorded.of_mem hmem
    obtain ⟨service, t, t', ht, ht', hreads, hservice⟩ := hretrieve before _ _ _
    obtain ⟨r, hr, hpresents⟩ :=
      retrieve_presents hreads (hservice.symm.trans (Eq.symm hanswer)) c hc
    rcases hr with hr | hr
    · exact ⟨t, r, ht, hr, .inl hpresents⟩
    · exact ⟨t', r, ht', hr, .inl hpresents⟩
  | called hmem hchunks hc =>
    obtain ⟨before, hanswer⟩ := hrecorded.of_mem hmem
    obtain ⟨t, r, ht, hr, hexcerpts⟩ :=
      (hsession before _ _ _).excerpts laws hloads (Eq.symm hanswer) hchunks c hc
    exact ⟨t, r, ht, hr, .inr hexcerpts⟩
  | @gaveUp message chunks hchunks hc =>
    have herror : ErrorText ("Tool error: ".toList ++ message) :=
      ⟨"Tool error: ".toList, by simp [errorOpenings], message, rfl⟩
    cases (extractChunkRecords_error svc.py hloads herror true).symm.trans hchunks
    cases hc

/-- Every source that a run of the agent delivers cites a chunk of an ingested document, and the
model was shown that chunk under the number of the source. -/
theorem agent_sources_cite_documents {steps : List (Step (Writers F dim) (Act F))}
    {final : Writers F dim} (hrun : Transition.Run Ingestion.Steps {} steps final)
    (htokens : OnBytes final.calls) {svc : Services F} {session : Session F}
    (settings : Settings) (question : Text) (topK : Option ℤ) (filters : Option SearchFilters)
    (laws : DriverLaws backend) (hloads : ∀ text, svc.py.loads text = Json.loads svc.py text)
    (hretrieve : RetrievesFrom reciprocal (Observed steps) svc)
    (hsession : ∀ log tool arguments timeout, Served reciprocal round4 svc.py cal backend
      (Observed steps) (session log tool arguments timeout))
    {sources : List Source} (hsources : .emit (.sources sources) ∈
      (run (overSession svc session) settings question topK filters).2.log) :
    ∀ source ∈ sources, ∃ call ∈ final.calls, ∃ doc ∈ call.docs,
      CitesChunk (run (overSession svc session) settings question topK filters).2.log doc
        source := by
  intro source hsource
  have hfinished := run_finished (overSession svc session) settings question topK filters
  obtain ⟨e, entries, rfl, hentries, hsent, c, hc, hentry⟩ :=
    (traced_of_sources hfinished hsources source hsource).entry
  obtain ⟨t, r, ht, hr, hshows⟩ := showsRow_of_origin laws hloads hretrieve hsession hc
  obtain ⟨call, hcall, doc, hdoc, hslice⟩ := fromDocument_of_observed hrun htokens ht r hr
  exact ⟨call, hcall, doc, hdoc, citesChunk hslice hshows hentry hentries hsent⟩

end Runs

/-! ### A search for one document -/

section Search

/-- A database that takes every row for a match and computes nothing. -/
def obligingEngine : Sql.Engine (Cell ℕ Unit Unit) (Param ℕ Unit) Exn where
  undefined := .other "ProgrammingError".toList
  bindValue _ _
    | .value (.str s) => if nul ∈ s then .error .valueError else .ok (.value (.str s))
    | .value v => .ok (.value v)
    | .datetime d => .ok (.datetime d)
  isNull _ := false
  compare _ _ _ := .ok true
  same _ _ := true
  count n := .value (.int n)
  aggregate _ _ := .error .typeError
  median _ := .error .typeError
  minutes _ _ := .error .typeError
  truncate _ _ := .error .typeError
  arrange _ outs := .ok outs
  cut _ outs := .ok (outs.take 1)

def obligingBackend : Backend ℕ Unit Unit where
  engine := obligingEngine
  mapping out := .ok (.ofList out)
  bind_text _ _ _ _ _ s hs := ⟨.value (.str s), if_neg hs, rfl⟩
  bind_nul _ _ _ hs := ⟨.valueError, if_pos hs⟩
  cut_one _ := rfl
  mapping_nodup _ h := ⟨_, rfl, Dict.items_ofList h⟩

theorem driverLaws_obligingBackend : DriverLaws obligingBackend where
  engine := by
    constructor
    · intro _ outs arranged h
      cases h
      exact List.Subset.refl _
    · intro _ outs rest h
      cases h
      exact List.take_subset _ _
  mapping := by
    intro out row h key hkey
    cases h
    exact Dict.mem_keys_ofList.mp hkey

def countingInterpreter : Interpreter ℕ where
  loads _ := .error .valueError
  dumpsFloat _ := "0.0".toList
  reprFloat _ := "0.0".toList
  reprStr s := '\'' :: s ++ ['\'']
  zero := 0
  isZero x := x = 0
  floatOfInt _ := .ok 0
  floatOfText _ := .ok 0
  intOfFloat _ := .ok 0

def decodingInterpreter : Interpreter ℕ :=
  { countingInterpreter with loads := Json.loads countingInterpreter }

theorem loads_decodingInterpreter (text : Text) :
    decodingInterpreter.loads text = Json.loads decodingInterpreter text := by
  have hfloat : countingInterpreter.floatOfText = decodingInterpreter.floatOfText := rfl
  exact Json.loads_congr hfloat text

def rollbackServer : SearchServer ℕ where
  maxQueryChars := 4000
  modelName := "m".toList
  embedQuery text := .ok [text.length]
  storedEmbeddingModel := .ok (some "m".toList)
  database := matchAll

def rollbackSteps : List (Step (Writers ℕ 1) (Act ℕ)) :=
  [⟨{}, .start rollbackCall, rollbackStart⟩, ⟨rollbackStart, .commit 0, rollbackWritten⟩] ++
    [⟨rollbackWritten, .commit 0, committed 0 rollbackWritten⟩]

def rollbackFound : List (ChunkRow ℕ) := rollbackWritten.table.rows.values

/-- Every call is answered with what the search tool finds behind the upsert. -/
def rollbackSession : Session ℕ := fun _ _ _ _ =>
  match searchRecords (fun _ => 1) id rollbackServer rollbackFound rollbackFound "flag".toList none
    6 with
  | .ok records => .returned ⟨[], .obj [("result".toList, .arr (records.map .obj))], false⟩
  | .error e => .raised e

/-- A model that searches once and then cites the first record. -/
def searchingServices : Services ℕ where
  py := decodingInterpreter
  modelName := "fake".toList
  retrieve _ question topK filters :=
    rollbackService.retrieve (fun _ => 1) question topK filters false
  listTools _ := .ok []
  countTokens _ _ := .ok 100
  complete log _ := .ok
    (if (toolCalls log).isEmpty then
      { text := []
        toolCalls := [⟨"t1".toList, "search_records".toList, .obj []⟩] }
    else { text := "Use the flag [1].".toList })
  call _ _ _ _ := .error .valueError
  perfCounter _ := 0

theorem observed_rollbackWritten : Observed rollbackSteps rollbackWritten.table :=
  .inr ⟨⟨rollbackStart, .commit 0, rollbackWritten⟩, by simp [rollbackSteps], rfl⟩

theorem observed_rollbackPruned : Observed rollbackSteps (committed 0 rollbackWritten).table :=
  .inr ⟨⟨rollbackWritten, .commit 0, committed 0 rollbackWritten⟩, by simp [rollbackSteps], rfl⟩

theorem served_rollbackSession (cal : Calendar ℕ Unit Unit) (log : List (Action ℕ)) (tool : Text)
    (arguments : Json ℕ) (timeout : ℕ) :
    Served (fun _ => 1) id decodingInterpreter cal obligingBackend (Observed rollbackSteps)
      (rollbackSession log tool arguments timeout) := by
  unfold rollbackSession
  split
  · next records hrecords =>
    exact .searched observed_rollbackWritten observed_rollbackWritten (.refl _) (.refl _) hrecords
      .wrapped
  · next e _ => exact .raised e

def countingCalendar : Calendar ℕ Unit Unit where
  fromisoformat _ := none
  hasTz _ := true
  replaceUtc d := d
  isoformat _ := []
  floatOfDecimal _ := 0

def searchingRun : Run ℕ :=
  (run (overSession searchingServices rollbackSession) ⟨8, 6, 30000, 15, 2, 2000⟩ "how".toList none
    none).2

def rollbackSource : Source :=
  { index := 1
    chunkId := "RB-1::0".toList
    docId := "RB-1".toList
    sourceType := "runbook".toList
    title := "Rollback".toList
    snippet := "use the flag".toList
    charStart := 0
    charEnd := 12 }

def sourcesOf : Action F → Option (List Source)
  | .emit (.sources sources) => some sources
  | _ => none

theorem mem_of_sourcesOf {log : List (Action F)} {sources : List Source}
    (h : sources ∈ log.filterMap sourcesOf) : .emit (.sources sources) ∈ log := by
  obtain ⟨a, ha, hsources⟩ := List.mem_filterMap.mp h
  unfold sourcesOf at hsources
  split at hsources
  · cases hsources
    exact ha
  · cases hsources

theorem agent_sources_cite_documents_rollback :
    .emit (.sources [rollbackSource]) ∈ searchingRun.log ∧
      ∃ call ∈ (committed 0 rollbackWritten).calls, ∃ doc ∈ call.docs,
        CitesChunk searchingRun.log doc rollbackSource := by
  have hdelivered : searchingRun.log.filterMap sourcesOf = [[rollbackSource]] := by
    decide +kernel
  have hsources := mem_of_sourcesOf (hdelivered ▸ List.mem_singleton_self [rollbackSource])
  have htokens : OnBytes (committed 0 rollbackWritten).calls := by
    intro call hcall
    obtain rfl := List.mem_singleton.mp hcall
    exact ⟨_, byteTokenizer_byteTokens⟩
  have hretrieve : RetrievesFrom (fun _ => 1) (Observed rollbackSteps) searchingServices :=
    fun _ _ _ _ => ⟨rollbackService, _, _, observed_rollbackWritten, observed_rollbackPruned,
      ⟨⟨matchAll, _, .refl _, rfl⟩, ⟨matchAll, _, .refl _, rfl⟩⟩, rfl⟩
  refine ⟨hsources, ?_⟩
  exact agent_sources_cite_documents (rollbackWritten_run.append rollbackPruned_run) htokens _ _ _ _
    driverLaws_obligingBackend loads_decodingInterpreter hretrieve
    (served_rollbackSession countingCalendar) hsources rollbackSource (List.mem_singleton_self _)

end Search

end GroundedOps.Agent
