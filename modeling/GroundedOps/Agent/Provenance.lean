import GroundedOps.Agent.GroundedAnswers
import GroundedOps.Ingestion.StoredSlices
import GroundedOps.Retrieval.RetrievedRows

/-!
# From documents to sources

An answer is grounded in the documents that were ingested: behind every source stands a record
of the prompt, behind the record a stored row, and behind the row a slice of a document. The
two searches of a request may see the table before and after other transactions.
-/

namespace GroundedOps.Agent

open Python Llm Retrieval Ingestion

open Transition (Step)

variable {F : Type} {dim : ℕ}

/-- The source cites a slice of the document, and the record of the prompt under its number
shows that slice. -/
structure CitesSlice (prompt : Text) (doc : SourceDoc) (s : Source) : Prop where
  docId : s.docId = doc.docId
  sourceType : s.sourceType = doc.sourceType
  title : s.title = doc.title
  chunkId : ∃ i, s.chunkId = chunkId doc.docId i
  span : 0 ≤ s.charStart ∧ s.charStart < s.charEnd ∧ s.charEnd ≤ doc.text.length
  snippet : s.snippet = snippet ((doc.text.take s.charEnd.toNat).drop s.charStart.toNat)
  shown : ∃ e, renderRecord e <:+: prompt ∧ s = Source.ofEntry e ∧
    e.content = (doc.text.take s.charEnd.toNat).drop s.charStart.toNat

theorem citesSlice {prompt : Text} {doc : SourceDoc} {r : ChunkRow F} (hrow : SliceOf doc r)
    {c : RetrievedChunk F} (hc : Presents c r) {e : CitationEntry}
    (he : e = CitationEntry.ofChunk e.index c) (hshown : renderRecord e <:+: prompt) :
    CitesSlice prompt doc (Source.ofEntry e) := by
  have hsource : Source.ofEntry e = ⟨e.index, r.chunkId, r.docId, r.sourceType, r.title,
      snippet r.content, r.charStart, r.charEnd⟩ := by
    rw [he, hc]
    rfl
  have hcontent : e.content = r.content := by
    rw [he, hc]
    rfl
  have hstart : (Source.ofEntry e).charStart = r.charStart := congrArg Source.charStart hsource
  have hend : (Source.ofEntry e).charEnd = r.charEnd := congrArg Source.charEnd hsource
  have hslice : r.content = (doc.text.take (Source.ofEntry e).charEnd.toNat).drop
      (Source.ofEntry e).charStart.toNat := by
    rw [hstart, hend, Int.toNat_natCast, Int.toNat_natCast, hrow.content]
  constructor
  · rw [hsource, hrow.docId]
  · rw [hsource, hrow.sourceType]
  · rw [hsource, hrow.title]
  · exact ⟨r.chunkIndex, by rw [hsource, hrow.chunkId]⟩
  · have hlt := hrow.start_lt
    have hle := hrow.end_le
    rw [hstart, hend]
    omega
  · rw [← hslice, hsource]
  · exact ⟨e, hshown, rfl, hcontent.trans hslice⟩

/-- The searches of the service read the table in these two states. -/
structure ReadsTables [LinearOrder F] [One F] [Sub F] (svc : RetrievalService F)
    (t t' : ChunkTable F dim) : Prop where
  dense : ∃ db rows, rows.Perm t.rows.values ∧ svc.search = PgVectorStore.search db rows
  keyword : ∃ db rows, rows.Perm t'.rows.values ∧
    svc.keywordSearch = PgVectorStore.keywordSearch db rows

variable [LinearOrder F] [Zero F] [Add F] [One F] [Sub F]

/-- What a request returns are rows of the table in one of the two states. -/
theorem retrieve_presents {reciprocal : ℕ → F} {svc : RetrievalService F}
    {t t' : ChunkTable F dim} (hreads : ReadsTables svc t t') {query : Text} {topK : ℤ}
    {filters : Option SearchFilters} {chunks : List (RetrievedChunk F)}
    (h : svc.retrieve reciprocal query topK filters false = .ok chunks) :
    ∀ c ∈ chunks, ∃ r, (r ∈ t.rows.values ∨ r ∈ t'.rows.values) ∧ Presents c r := by
  obtain ⟨db, rows, hperm, hsearch⟩ := hreads.dense
  obtain ⟨db', rows', hperm', hkeyword⟩ := hreads.keyword
  refine retrieve_forall ?_ h ?_ ?_
  · rintro c score retriever ⟨r, hr, hpresents⟩
    exact ⟨r, hr, hpresents.rescored score retriever⟩
  · intro args found hfound c hc
    have hpg : svc.denseSearch false args = svc.search args := by
      unfold RetrievalService.denseSearch
      cases svc.faissStore <;> rfl
    rw [hpg, hsearch] at hfound
    obtain ⟨r, hr, hpresents⟩ := PgVectorStore.search_presents hfound c hc
    exact ⟨r, .inl (hperm.subset hr), hpresents⟩
  · intro pool found hfound c hc
    rw [hkeyword] at hfound
    obtain ⟨r, hr, hpresents⟩ := PgVectorStore.keywordSearch_presents hfound c hc
    exact ⟨r, .inr (hperm'.subset hr), hpresents⟩

/-- Every source of an answer cites a slice of a document that was handed to ingestion, whatever
calls run beside the request, and the model was shown exactly that slice; the sources are those
the validation of its response found cited. -/
theorem sources_cite_documents {steps steps' : List (Step (Writers F dim) (Act F))}
    {s s' : Writers F dim} (hrun : Transition.Run Steps {} steps s)
    (hrun' : Transition.Run Steps s steps' s') (htokens : OnBytes s'.calls)
    {reciprocal : ℕ → F} {svc : RetrievalService F}
    (hreads : ReadsTables svc s.table s'.table) (llm : LLMProvider F) {question : Text} {topK : ℤ}
    {maxTokens : ℕ} {filters : Option SearchFilters} {out : GroundedAnswer}
    (hout : generateGroundedAnswer (fun q k f => svc.retrieve reciprocal q k f false) llm question
      topK maxTokens filters = .ok out) :
    ∃ chunks response, svc.retrieve reciprocal question topK filters false = .ok chunks ∧
      AnswerFrom llm question maxTokens chunks response out ∧
      out.sources.map Source.index = out.usedIndices ∧ out.usedIndices.Pairwise (· < ·) ∧
      ∀ source ∈ out.sources, ∃ call ∈ s'.calls, ∃ doc ∈ call.docs,
        CitesSlice (buildAnswerPrompt question (registryOf chunks)) doc source := by
  obtain ⟨chunks, response, hchunks, hgenerated⟩ := generateGroundedAnswer_ok hout
  obtain ⟨hsorted, hindices, hshown⟩ := hgenerated.sources_shown
  have hsound := sound_of_run hrun sound_start
  have hsound' := sound_of_run hrun' hsound
  have hcalls := calls_subset_of_run hrun'
  refine ⟨chunks, response, hchunks, hgenerated, hindices, hsorted, ?_⟩
  intro source hsource
  obtain ⟨e, he, rfl⟩ := hshown source hsource
  obtain ⟨c, hc, hentry⟩ := exists_chunk_of_mem_registryOf he
  obtain ⟨r, hr, hpresents⟩ := retrieve_presents hreads hchunks c hc
  have hdocument : FromDocument s'.calls r := by
    rcases hr with hr | hr
    · have htokens₁ : OnBytes s.calls := fun call hcall => htokens call (hcalls hcall)
      exact (hsound.fromDocument htokens₁ r hr).mono hcalls
    · exact hsound'.fromDocument htokens r hr
  obtain ⟨call, hcall, doc, hdoc, hslice⟩ := hdocument
  exact ⟨call, hcall, doc, hdoc,
    citesSlice hslice hpresents hentry (renderRecord_infix_prompt question he)⟩

/-! ### One document -/

section Rollback

def rollbackCall : Call ℕ := { rollback "use the flag".toList with enc := byteTokenizer }

def rollbackStart : Writers ℕ 1 :=
  { calls := [rollbackCall]
    pending := [transactions (rollbackCall.rows.toOption.getD []) rollbackCall.docs] }

def rollbackWritten : Writers ℕ 1 := committed 0 rollbackStart

theorem rollbackWritten_run : Transition.Run Steps {} [⟨{}, .start rollbackCall, rollbackStart⟩,
    ⟨rollbackStart, .commit 0, rollbackWritten⟩] rollbackWritten := by
  have hstart : Steps {} (.start rollbackCall) rollbackStart := .start _ _ rfl
  refine .snoc (.snoc .nil hstart) ?_
  exact .commit 0 _ _ _ rfl rfl

theorem rollbackPruned_run : Transition.Run Steps rollbackWritten
    [⟨rollbackWritten, .commit 0, committed 0 rollbackWritten⟩] (committed 0 rollbackWritten) :=
  .snoc .nil (.commit 0 _ _ _ rfl rfl)

/-- A database in which every text matches. -/
def matchAll : Database ℕ := sortingDatabase (fun _ _ => 0) (fun _ _ => true) fun _ _ => 1

/-- The upsert is committed between the searches of the request, the prune behind them. -/
def rollbackService : RetrievalService ℕ where
  modelName := "m".toList
  embedQuery text := .ok [text.length]
  storedEmbeddingModel := .ok (some "m".toList)
  search := PgVectorStore.search matchAll rollbackWritten.table.rows.values
  keywordSearch := PgVectorStore.keywordSearch matchAll (committed 0 rollbackWritten).table.rows.values

/-- A model that cites the first record and one that is not there. -/
def citingProvider : LLMProvider ℕ where
  modelName := "fake".toList
  complete _ _ := .ok { text := "Use the flag [1] or the switch [2].".toList }
  countTokens _ := .ok 0

theorem sources_cite_documents_rollback :
    ∃ out, generateGroundedAnswer (fun q k f => rollbackService.retrieve (fun _ => 1) q k f false)
        citingProvider "how".toList 8 1500 none = .ok out ∧
      ∃ chunks response,
        rollbackService.retrieve (fun _ => 1) "how".toList 8 none false = .ok chunks ∧
        AnswerFrom citingProvider "how".toList 1500 chunks response out ∧
        out.sources.map Source.index = out.usedIndices ∧ out.usedIndices.Pairwise (· < ·) ∧
        ∀ source ∈ out.sources, ∃ call ∈ (committed 0 rollbackWritten).calls, ∃ doc ∈ call.docs,
          CitesSlice (buildAnswerPrompt "how".toList (registryOf chunks)) doc source := by
  have htokens : OnBytes (committed 0 rollbackWritten).calls := by
    intro call hcall
    obtain rfl := List.mem_singleton.mp hcall
    exact ⟨_, byteTokenizer_byteTokens⟩
  have hreads : ReadsTables rollbackService rollbackWritten.table
      (committed 0 rollbackWritten).table :=
    ⟨⟨matchAll, _, .refl _, rfl⟩, ⟨matchAll, _, .refl _, rfl⟩⟩
  obtain ⟨out, hout⟩ : ∃ out, generateGroundedAnswer
      (fun q k f => rollbackService.retrieve (fun _ => 1) q k f false) citingProvider
      "how".toList 8 1500 none = .ok out := exists_ok_of_isSome (by decide +kernel)
  exact ⟨out, hout, sources_cite_documents rollbackWritten_run rollbackPruned_run htokens hreads
    citingProvider hout⟩

end Rollback

end GroundedOps.Agent
