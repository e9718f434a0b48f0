import GroundedOps.Ingestion.Chunker
import GroundedOps.Ingestion.Store

/-!
# Ingestion

Chunk, embed and upsert. All pieces are embedded before the first transaction; then
every document has two transactions, one for its rows and one for its orphans.
-/

namespace GroundedOps.Ingestion

open Python

variable {F : Type} {dim : ℕ}

/-- A unit of unstructured content to be chunked and indexed. -/
structure SourceDoc where
  docId : Text
  sourceType : Text
  title : Text
  text : Text
  markdown : Bool

structure EmbeddingProvider (F : Type) where
  modelName : Text
  embedDocuments : List Text → Except Exn (List (List F))

structure IngestStats where
  documents : ℕ
  chunks : ℕ
  embeddingModel : Text

def docPieces (enc : Tokenizer) : List SourceDoc → Except Exn (List (SourceDoc × ChunkPiece))
  | [] => .ok []
  | doc :: docs => do
    let pieces ← chunkDocument enc doc.text doc.markdown targetTokens overlapTokens
    let rest ← docPieces enc docs
    return pieces.map (Prod.mk doc) ++ rest

def embedBatches (provider : EmbeddingProvider F) : List (List Text) → Except Exn (List (List F))
  | [] => .ok []
  | batch :: batches => do
    let vectors ← provider.embedDocuments batch
    let rest ← embedBatches provider batches
    return vectors ++ rest

def chunkId (docId : Text) (index : ℕ) : Text := docId ++ "::".toList ++ str index

def chunkRow (model : Text) (createdAt : ℤ) (doc : SourceDoc) (piece : ChunkPiece)
    (vector : List F) : ChunkRow F where
  chunkId := chunkId doc.docId piece.chunkIndex
  docId := doc.docId
  sourceType := doc.sourceType
  title := doc.title
  chunkIndex := piece.chunkIndex
  charStart := piece.charStart
  charEnd := piece.charEnd
  content := piece.content
  embedding := vector
  embeddingModel := model
  createdAt := createdAt

/-- All rows of a batch of documents. The number of vectors must be that of the pieces. -/
def chunkRows (enc : Tokenizer) (provider : EmbeddingProvider F) (batchSize : ℕ) (createdAt : ℤ)
    (docs : List SourceDoc) : Except Exn (List (ChunkRow F)) := do
  let pairs ← docPieces enc docs
  if batchSize = 0 then throw .valueError
  let vectors ← embedBatches provider ((pairs.map fun p => p.2.content).toChunks batchSize)
  if vectors.length ≠ pairs.length then throw .valueError
  return List.zipWith (fun p v => chunkRow provider.modelName createdAt p.1 p.2 v) pairs vectors

/-- The transactions of one document after the other, until one fails. -/
def ingestRows (rows : List (ChunkRow F)) :
    List SourceDoc → EStateM Exn (ChunkTable F dim) ℕ
  | [] => pure 0
  | doc :: docs => do
    let own := rows.filter fun r => r.docId = doc.docId
    let t ← get
    match upsertChunks own t with
    | .error e => throw e
    | .ok t => set t
    modify (deleteOrphans doc.docId own.length)
    let rest ← ingestRows rows docs
    return own.length + rest

def ingestDocuments (enc : Tokenizer) (provider : EmbeddingProvider F) (batchSize : ℕ)
    (createdAt : ℤ) (docs : List SourceDoc) : EStateM Exn (ChunkTable F dim) IngestStats := do
  match chunkRows enc provider batchSize createdAt docs with
  | .error e => throw e
  | .ok rows =>
    let total ← ingestRows rows docs
    return ⟨docs.length, total, provider.modelName⟩

/-- A tokenizer with one token for every character. -/
def charTokenizer : Tokenizer where
  encode text := .ok (text.map Char.toNat)
  decode tokens := tokens.map Char.ofNat

/-- A provider whose vectors hold the length of the text. -/
def lengthProvider : EmbeddingProvider ℕ where
  modelName := "m".toList
  embedDocuments texts := .ok (texts.map fun t => [t.length])

end GroundedOps.Ingestion
