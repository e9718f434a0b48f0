import GroundedOps.Retrieval.HybridSearch

/-!
# Retrieved chunks are stored rows

Fusion and reranking give a chunk another score and another retriever, and leave the rest of
it as the searches have found it.
-/

namespace GroundedOps.Retrieval

open Python Ingestion

variable {F : Type}

/-- The chunk shows the row, with a score and a retriever of its own. -/
def Presents (c : RetrievedChunk F) (r : ChunkRow F) : Prop :=
  c = retrieved r c.score c.retriever

theorem Presents.rescored {c : RetrievedChunk F} {r : ChunkRow F} (h : Presents c r) (score : F)
    (retriever : Text) : Presents { c with score, retriever } r := by
  rw [Presents] at h
  rw [h]
  rfl

theorem Found.presents {selection : List (ChunkRow F)} {n : ℤ} {found : List (RetrievedChunk F)}
    (h : Found selection n found) :
    ∀ c ∈ found, ∃ r ∈ selection, Presents c r := by
  intro c hc
  obtain ⟨score, retriever, rfl⟩ := h
  obtain ⟨r, hr, rfl⟩ := List.mem_map.mp hc
  exact ⟨r, List.mem_of_mem_take hr, rfl⟩

section Searches

variable {db : Database F} {rows : List (ChunkRow F)}

theorem PgVectorStore.search_presents [One F] [Sub F] {args : SearchArgs F}
    {found : List (RetrievedChunk F)} (h : PgVectorStore.search db rows args = .ok found) :
    ∀ c ∈ found, ∃ r ∈ rows, Presents c r := by
  intro c hc
  obtain ⟨r, hr, hpresents⟩ := (PgVectorStore.search_found h).presents c hc
  exact ⟨r, db.scan_subset _ _ (List.mem_of_mem_filter hr), hpresents⟩

theorem PgVectorStore.keywordSearch_presents [LinearOrder F] {query : Text} {topK : ℤ}
    {filters : Option SearchFilters} {found : List (RetrievedChunk F)}
    (h : PgVectorStore.keywordSearch db rows query topK filters = .ok found) :
    ∀ c ∈ found, ∃ r ∈ rows, Presents c r := by
  intro c hc
  obtain ⟨r, hr, hpresents⟩ := (PgVectorStore.keywordSearch_found h).presents c hc
  rw [PgVectorStore.matching, List.mem_insertionSort] at hr
  exact ⟨r, List.mem_of_mem_filter (List.mem_of_mem_filter hr), hpresents⟩

end Searches

section Requests

/-- A property that does not depend on score and retriever. -/
def Intrinsic (P : RetrievedChunk F → Prop) : Prop :=
  ∀ c score retriever, P c → P { c with score, retriever }

variable [LinearOrder F] {P : RetrievedChunk F → Prop} (hP : Intrinsic P)
include hP

theorem rerank_forall {predict : List (Text × Text) → Except Exn (List F)} {query : Text}
    {chunks out : List (RetrievedChunk F)} {topK : ℤ}
    (h : rerank predict query chunks (some topK) = .ok out) (hchunks : ∀ c ∈ chunks, P c) :
    ∀ c ∈ out, P c := by
  unfold rerank at h
  split_ifs at h with hempty
  · cases h
    exact hchunks
  · rw [bind_eq_ok] at h
    obtain ⟨scores, -, h⟩ := h
    split_ifs at h with hlength
    cases h
    intro c hc
    obtain ⟨p, hp, rfl⟩ := List.mem_map.mp (sliceTo_subset _ topK hc)
    rw [List.mem_insertionSort] at hp
    exact hP p.1 _ _ (hchunks p.1 (List.of_mem_zip hp).1)

variable [Zero F] [Add F]

theorem fused_forall {reciprocal : ℕ → F} {rankings : List (List (RetrievedChunk F))} {k : ℕ}
    (h : ∀ ranking ∈ rankings, ∀ c ∈ ranking, P c) :
    ∀ c ∈ reciprocalRankFusion reciprocal rankings k none, P c := by
  intro c hc
  obtain ⟨ranking, hranking, d, hd, rfl⟩ := exists_of_mem_fused hc
  exact hP d _ _ (h ranking hranking d hd)

/-- What holds of all chunks that the two searches find holds of what a request returns. -/
theorem retrieve_forall {reciprocal : ℕ → F} {svc : RetrievalService F} {query : Text} {topK : ℤ}
    {filters : Option SearchFilters} {useFaiss : Bool} {chunks : List (RetrievedChunk F)}
    (h : svc.retrieve reciprocal query topK filters useFaiss = .ok chunks)
    (hdense : ∀ args found, svc.denseSearch useFaiss args = .ok found → ∀ c ∈ found, P c)
    (hkeyword : ∀ pool found, svc.keywordSearch query pool filters = .ok found →
      ∀ c ∈ found, P c) :
    ∀ c ∈ chunks, P c := by
  unfold RetrievalService.retrieve at h
  rw [bind_eq_ok] at h
  obtain ⟨stored, -, h⟩ := h
  cases hmatch : assertModelMatches svc.modelName stored with
  | error e =>
    rw [hmatch] at h
    cases h
  | ok =>
    simp only [hmatch, bind_eq_ok] at h
    obtain ⟨queryVector, -, dense, hd, keyword, hk, h⟩ := h
    have hfused : ∀ c ∈ reciprocalRankFusion reciprocal [dense, keyword] svc.rrfK none, P c := by
      apply fused_forall hP
      intro ranking hranking
      rcases List.mem_pair.mp hranking with rfl | rfl
      · exact hdense _ _ hd
      · exact hkeyword _ _ hk
    cases hreranker : svc.reranker with
    | some predict =>
      rw [hreranker] at h
      exact rerank_forall hP h hfused
    | none =>
      rw [hreranker] at h
      obtain rfl := Except.ok.inj h
      exact fun c hc => hfused c (sliceTo_subset _ topK hc)

end Requests

end GroundedOps.Retrieval
