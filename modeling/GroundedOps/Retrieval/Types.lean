import GroundedOps.Python.Text

/-!
# Shared retrieval data

Scores and embedding vectors are kept abstract: `F` is the type of floating
point numbers and `V` the type of stored vectors.
-/

namespace GroundedOps.Retrieval

open Python

/-- A chunk returned by a retriever, with its score and provenance. -/
structure RetrievedChunk (F : Type*) where
  chunkId : Text
  docId : Text
  sourceType : Text
  title : Text
  content : Text
  charStart : ℤ
  charEnd : ℤ
  score : F
  retriever : Text

def chunkIds {F : Type*} (ranking : List (RetrievedChunk F)) : List Text :=
  ranking.map RetrievedChunk.chunkId

@[simp] theorem chunkIds_cons {F : Type*} (c : RetrievedChunk F)
    (ranking : List (RetrievedChunk F)) : chunkIds (c :: ranking) = c.chunkId :: chunkIds ranking := rfl

/-- What a citation of a chunk refers to. -/
structure Provenance where
  chunkId : Text
  docId : Text
  sourceType : Text
  title : Text
  charStart : ℤ
  charEnd : ℤ
  deriving DecidableEq

def RetrievedChunk.provenance {F : Type*} (c : RetrievedChunk F) : Provenance :=
  ⟨c.chunkId, c.docId, c.sourceType, c.title, c.charStart, c.charEnd⟩

theorem chunkIds_eq_provenance {F : Type*} (ranking : List (RetrievedChunk F)) :
    chunkIds ranking = (ranking.map RetrievedChunk.provenance).map Provenance.chunkId := by
  rw [List.map_map]
  rfl

structure SearchFilters where
  sourceTypes : Option (List Text) := none
  docIds : Option (List Text) := none

namespace SearchFilters

/-- In-memory filter predicate of the FAISS path. -/
def allows (filters : SearchFilters) (sourceType docId : Text) : Bool :=
  filters.sourceTypes.all (·.contains sourceType) && filters.docIds.all (·.contains docId)

def isEmpty (filters : SearchFilters) : Bool :=
  filters.sourceTypes.isNone && filters.docIds.isNone

end SearchFilters

end GroundedOps.Retrieval
