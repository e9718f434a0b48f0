import GroundedOps.Retrieval.FilteredSearch
import GroundedOps.Retrieval.Rrf
import GroundedOps.Retrieval.Service

/-!
# Hybrid retrieval

The dense and the keyword search each fill a pool that is larger than what is asked for. The
pools are fused, perhaps reordered by a second model, and cut. What the two searches find is
the database's; the model of the reranker scores every pair it is given.
-/

namespace GroundedOps.Retrieval

open Python Ingestion Ranking

variable {F : Type}

def embeddingMismatch : Exn := .other "EmbeddingMismatchError".toList

/-- `CrossEncoderReranker.rerank` -/
def rerank [LinearOrder F] (predict : List (Text × Text) → Except Exn (List F)) (query : Text)
    (chunks : List (RetrievedChunk F)) (topK : Option ℤ) : Except Exn (List (RetrievedChunk F)) :=
  if chunks.isEmpty then .ok chunks
  else do
    let scores ← predict (chunks.map fun c => (query, c.content))
    if scores.length = chunks.length then
      let ranked := (chunks.zip scores).insertionSort fun p q => q.2 ≤ p.2
      let out := ranked.map fun p => { p.1 with score := p.2, retriever := "reranker".toList }
      .ok (topK.elim out (sliceTo out))
    else .error .valueError

structure RetrievalService (F : Type) where
  modelName : Text
  embedQuery : Text → Except Exn (List F)
  storedEmbeddingModel : Except Exn (Option Text)
  search : SearchArgs F → Except Exn (List (RetrievedChunk F))
  keywordSearch : Text → ℤ → Option SearchFilters → Except Exn (List (RetrievedChunk F))
  faissStore : Option (Engine F × FaissStore F) := none
  rrfK : ℕ := 60
  reranker : Option (List (Text × Text) → Except Exn (List F)) := none

namespace RetrievalService

variable [Zero F] [Add F] [LinearOrder F]

/-- The dense search of a request: that of the derived store if it is wanted and ready. -/
def denseSearch (svc : RetrievalService F) (useFaiss : Bool) (args : SearchArgs F) :
    Except Exn (List (RetrievedChunk F)) :=
  match svc.faissStore with
  | some (engine, store) =>
    if useFaiss && store.index.isSome then store.search engine args else svc.search args
  | none => svc.search args

def retrieve (reciprocal : ℕ → F) (svc : RetrievalService F) (query : Text) (topK : ℤ)
    (filters : Option SearchFilters) (useFaiss : Bool) : Except Exn (List (RetrievedChunk F)) := do
  let stored ← svc.storedEmbeddingModel
  match assertModelMatches svc.modelName stored with
  | .error _ => throw embeddingMismatch
  | .ok _ =>
    let queryVector ← svc.embedQuery query
    let pool := max (topK * 4) 25
    let dense ← svc.denseSearch useFaiss ⟨queryVector, pool, filters⟩
    let keyword ← svc.keywordSearch query pool filters
    let fused := reciprocalRankFusion reciprocal [dense, keyword] svc.rrfK none
    match svc.reranker with
    | some predict => rerank predict query fused (some topK)
    | none => return sliceTo fused topK

end RetrievalService

/-! ### What is returned -/

section Returned

variable [LinearOrder F]

/-- The reranker changes the order and the scores. -/
theorem rerank_ok {predict : List (Text × Text) → Except Exn (List F)} {query : Text}
    {chunks out : List (RetrievedChunk F)} {topK : ℤ}
    (h : rerank predict query chunks (some topK) = .ok out) :
    ∃ ranked : List (RetrievedChunk F), out = sliceTo ranked topK ∧
      (ranked.map RetrievedChunk.provenance).Perm (chunks.map RetrievedChunk.provenance) := by
  unfold rerank at h
  split_ifs at h with hempty
  · cases h
    rw [List.isEmpty_iff.mp hempty]
    exact ⟨[], (List.eq_nil_of_subset_nil (sliceTo_subset [] topK)).symm, .refl _⟩
  · rw [bind_eq_ok] at h
    obtain ⟨scores, -, h⟩ := h
    split_ifs at h with hlength
    cases h
    refine ⟨_, rfl, ?_⟩
    have hpairs : (chunks.zip scores).map Prod.fst = chunks := List.map_fst_zip hlength.ge
    rw [List.map_map]
    conv_rhs => rw [← hpairs, List.map_map]
    exact (List.perm_insertionSort _ _).map _

variable [Zero F] [Add F]

/-- The request returns a part of the fused list, up to its order. -/
theorem retrieve_ok {reciprocal : ℕ → F} {svc : RetrievalService F} {query : Text} {topK : ℤ}
    {filters : Option SearchFilters} {useFaiss : Bool} {chunks : List (RetrievedChunk F)}
    (h : svc.retrieve reciprocal query topK filters useFaiss = .ok chunks) :
    ∃ queryVector dense keyword, svc.embedQuery query = .ok queryVector ∧
      svc.denseSearch useFaiss ⟨queryVector, max (topK * 4) 25, filters⟩ = .ok dense ∧
      svc.keywordSearch query (max (topK * 4) 25) filters = .ok keyword ∧
      ∃ ranked : List (RetrievedChunk F), chunks = sliceTo ranked topK ∧
        (ranked.map RetrievedChunk.provenance).Perm
          ((reciprocalRankFusion reciprocal [dense, keyword] svc.rrfK none).map
            RetrievedChunk.provenance) := by
  unfold RetrievalService.retrieve at h
  rw [bind_eq_ok] at h
  obtain ⟨stored, -, h⟩ := h
  cases hmatch : assertModelMatches svc.modelName stored with
  | error e =>
    rw [hmatch] at h
    cases h
  | ok =>
    simp only [hmatch, bind_eq_ok] at h
    obtain ⟨queryVector, hvector, dense, hdense, keyword, hkeyword, h⟩ := h
    refine ⟨queryVector, dense, keyword, hvector, hdense, hkeyword, ?_⟩
    cases hreranker : svc.reranker with
    | some predict =>
      rw [hreranker] at h
      exact rerank_ok h
    | none =>
      rw [hreranker] at h
      exact ⟨_, (Except.ok.inj h).symm, .refl _⟩

end Returned

end GroundedOps.Retrieval
