import GroundedOps.Ingestion.ChunkSpans
import GroundedOps.Ingestion.Indexer
import GroundedOps.Library.Lists

/-!
# The rows of a batch

A batch is chunked and embedded as a whole; its rows are still those of its documents, one
after the other. The rows of a document are numbered from zero, and a chunk id gives back
document and number.
-/

namespace GroundedOps.Ingestion

open Python

variable {F : Type} {dim : ℕ}

/-! ### Chunk ids -/

/-- The index has no colon: it is what stands behind the last one. -/
theorem takeWhile_reverse_chunkId (d : Text) (i : ℕ) :
    (chunkId d i).reverse.takeWhile (· != ':') = (str i).reverse := by
  have hdigits : ∀ c ∈ (str i).reverse, (c != ':') = true := by
    intro c hc
    rw [bne_iff_ne]
    rintro rfl
    exact absurd (isDigit_of_mem_str (List.mem_reverse.mp hc)) (by decide)
  rw [chunkId, List.reverse_append, List.takeWhile_append_of_pos hdigits]
  simp

theorem chunkId_inj {d d' : Text} {i i' : ℕ} : chunkId d i = chunkId d' i' ↔ d = d' ∧ i = i' := by
  constructor
  · intro h
    have hindex := takeWhile_reverse_chunkId d i
    rw [h, takeWhile_reverse_chunkId, List.reverse_inj] at hindex
    obtain rfl := str_inj hindex
    rw [chunkId, chunkId, List.append_assoc, List.append_assoc] at h
    exact ⟨List.append_cancel_right h, rfl⟩
  · rintro ⟨rfl, rfl⟩
    rfl

/-! ### Rows of one document -/

/-- Rows of one version of a document: they are numbered from zero, under their ids. -/
structure Version (docId : Text) (rs : List (ChunkRow F)) : Prop where
  docId_eq : ∀ r ∈ rs, r.docId = docId
  chunkId_eq : ∀ r ∈ rs, r.chunkId = chunkId r.docId r.chunkIndex
  numbered : rs.map ChunkRow.chunkIndex = List.range rs.length

theorem Version.getElem? {docId : Text} {rs : List (ChunkRow F)} (h : Version docId rs) {i : ℕ}
    {r : ChunkRow F} (hr : rs[i]? = some r) :
    r.docId = docId ∧ r.chunkIndex = i ∧ r.chunkId = chunkId docId i := by
  have hmem := List.mem_of_getElem? hr
  have hindex : r.chunkIndex = i := by
    obtain ⟨hlt, -⟩ := List.getElem?_eq_some_iff.mp hr
    have hmap := congrArg (·[i]?) h.numbered
    simpa [hr, List.getElem?_range hlt] using hmap
  exact ⟨h.docId_eq r hmem, hindex, by rw [h.chunkId_eq r hmem, h.docId_eq r hmem, hindex]⟩

theorem Version.chunkIds {docId : Text} {rs : List (ChunkRow F)} (h : Version docId rs) :
    rs.map ChunkRow.chunkId = (List.range rs.length).map (chunkId docId) := by
  rw [← h.numbered, List.map_map]
  apply List.map_congr_left
  intro r hr
  rw [h.chunkId_eq r hr, h.docId_eq r hr, Function.comp]

theorem map_chunkIndex_zipWith (model : Text) (createdAt : ℤ) (doc : SourceDoc)
    {pieces : List ChunkPiece} {vectors : List (List F)} (h : pieces.length ≤ vectors.length) :
    (List.zipWith (chunkRow model createdAt doc) pieces vectors).map ChunkRow.chunkIndex =
      pieces.map ChunkPiece.chunkIndex := by
  rw [List.map_zipWith, ← List.map_uncurry_zip_eq_zipWith]
  conv_rhs => rw [← List.map_fst_zip h, List.map_map]
  rfl

section Batch

variable (enc : Tokenizer) (embeds : Text → List F → Prop) (model : Text) (createdAt : ℤ)

/-- The rows of a document, with vectors that its pieces are embedded to. -/
def DocRows (doc : SourceDoc) (rs : List (ChunkRow F)) : Prop :=
  ∃ pieces vectors,
    chunkDocument enc doc.text doc.markdown targetTokens overlapTokens = .ok pieces ∧
      List.Forall₂ (fun piece v => embeds piece.content v) pieces vectors ∧
        rs = List.zipWith (chunkRow model createdAt doc) pieces vectors

variable {enc embeds model createdAt} {doc : SourceDoc} {rs : List (ChunkRow F)}

theorem DocRows.version (h : DocRows enc embeds model createdAt doc rs) : Version doc.docId rs := by
  obtain ⟨pieces, vectors, hpieces, hvectors, rfl⟩ := h
  have hlen := hvectors.length_eq
  have hmem : ∀ r ∈ List.zipWith (chunkRow model createdAt doc) pieces vectors,
      ∃ piece v, r = chunkRow model createdAt doc piece v := by
    intro r hr
    obtain ⟨i, hi⟩ := List.getElem?_of_mem hr
    obtain ⟨piece, v, -, -, hrow⟩ := List.getElem?_zipWith_eq_some.mp hi
    exact ⟨piece, v, hrow.symm⟩
  constructor
  · intro r hr
    obtain ⟨piece, v, rfl⟩ := hmem r hr
    rfl
  · intro r hr
    obtain ⟨piece, v, rfl⟩ := hmem r hr
    rfl
  · rw [map_chunkIndex_zipWith model createdAt doc hlen.le, chunkDocument_numbered enc hpieces,
      List.length_zipWith, ← hlen, min_self]

/-- A document without pieces. -/
def Blank (enc : Tokenizer) (doc : SourceDoc) : Prop :=
  chunkDocument enc doc.text doc.markdown targetTokens overlapTokens = .ok []

theorem DocRows.eq_nil_iff (h : DocRows enc embeds model createdAt doc rs) :
    rs = [] ↔ Blank enc doc := by
  obtain ⟨pieces, vectors, hpieces, hvectors, rfl⟩ := h
  have hlen := hvectors.length_eq
  rw [Blank, hpieces, Except.ok.injEq]
  cases pieces with
  | nil => simp
  | cons piece pieces =>
    cases vectors with
    | nil => cases hlen
    | cons v vectors => simp

theorem DocRows.stamped (h : DocRows enc embeds model createdAt doc rs) {r : ChunkRow F}
    (hr : r ∈ rs) : r.embeddingModel = model ∧ r.createdAt = createdAt := by
  obtain ⟨pieces, vectors, -, -, rfl⟩ := h
  obtain ⟨i, hi⟩ := List.getElem?_of_mem hr
  obtain ⟨piece, v, -, -, rfl⟩ := List.getElem?_zipWith_eq_some.mp hi
  exact ⟨rfl, rfl⟩

/-! ### Rows of all documents -/

/-- The rows of each document of a batch. -/
def Blocks (enc : Tokenizer) (embeds : Text → List F → Prop) (model : Text) (createdAt : ℤ) :
    List SourceDoc → List (List (ChunkRow F)) → Prop :=
  List.Forall₂ (DocRows enc embeds model createdAt)

/-- The pieces of all documents with their vectors are the rows of each document. -/
theorem docPieces_blocks {docs : List SourceDoc} {rows : List (ChunkRow F)} :
    (∃ pairs vectors, docPieces enc docs = .ok pairs ∧
      List.Forall₂ (fun (p : SourceDoc × ChunkPiece) v => embeds p.2.content v) pairs vectors ∧
        rows = List.zipWith (fun p v => chunkRow model createdAt p.1 p.2 v) pairs vectors) ↔
      ∃ blocks, Blocks enc embeds model createdAt docs blocks ∧ rows = blocks.flatten := by
  induction docs generalizing rows with
  | nil =>
    constructor
    · rintro ⟨pairs, vectors, ⟨⟩, hvectors, rfl⟩
      exact ⟨[], .nil, by simp⟩
    · rintro ⟨blocks, hblocks, rfl⟩
      cases hblocks
      exact ⟨[], [], rfl, .nil, rfl⟩
  | cons doc docs ih =>
    constructor
    · rintro ⟨pairs, vectors, hpairs, hvectors, rfl⟩
      rw [docPieces, bind_eq_ok] at hpairs
      obtain ⟨pieces, hpieces, hpairs⟩ := hpairs
      rw [bind_eq_ok] at hpairs
      obtain ⟨rest, hrest, hpairs⟩ := hpairs
      cases hpairs
      obtain ⟨own, others, hown, hothers, rfl⟩ := forall₂_append_left.mp hvectors
      obtain ⟨blocks, hblocks, hflat⟩ := ih.mp ⟨rest, others, hrest, hothers, rfl⟩
      rw [List.forall₂_map_left_iff] at hown
      refine ⟨_ :: blocks, .cons ⟨pieces, own, hpieces, hown, rfl⟩ hblocks, ?_⟩
      rw [List.flatten_cons, ← hflat, List.zipWith_append (by simpa using hown.length_eq),
        List.zipWith_map_left]
    · rintro ⟨blocks, hblocks, rfl⟩
      cases hblocks with
      | cons hdoc hblocks =>
        obtain ⟨pieces, own, hpieces, hown, rfl⟩ := hdoc
        obtain ⟨rest, others, hrest, hothers, hflat⟩ := ih.mpr ⟨_, hblocks, rfl⟩
        refine ⟨pieces.map (Prod.mk doc) ++ rest, own ++ others, ?_, ?_, ?_⟩
        · rw [docPieces, hpieces, ok_bind, hrest]
          rfl
        · exact forall₂_append_left.mpr
            ⟨own, others, List.forall₂_map_left_iff.mpr hown, hothers, rfl⟩
        · rw [List.flatten_cons, hflat, List.zipWith_append (by simpa using hown.length_eq),
            List.zipWith_map_left]

end Batch

section Calls

variable {enc : Tokenizer} {provider : EmbeddingProvider F} {batchSize : ℕ} {createdAt : ℤ}
  {docs : List SourceDoc} {rows : List (ChunkRow F)}

theorem chunkRows_eq_ok : chunkRows enc provider batchSize createdAt docs = .ok rows ↔
    0 < batchSize ∧ ∃ pairs vectors, docPieces enc docs = .ok pairs ∧
      embedBatches provider ((pairs.map fun p => p.2.content).toChunks batchSize) = .ok vectors ∧
      pairs.length = vectors.length ∧
      rows = List.zipWith (fun p v => chunkRow provider.modelName createdAt p.1 p.2 v)
        pairs vectors := by
  simp only [chunkRows, bind_eq_ok]
  constructor
  · rintro ⟨pairs, hpairs, h⟩
    split_ifs at h with hsize
    · cases h
    · rw [bind_eq_ok] at h
      obtain ⟨vectors, hvectors, h⟩ := h
      split_ifs at h with hlen
      · cases h
      · cases h
        exact ⟨by omega, pairs, vectors, hpairs, hvectors, by omega, rfl⟩
  · rintro ⟨hsize, pairs, vectors, hpairs, hvectors, hlen, rfl⟩
    refine ⟨pairs, hpairs, ?_⟩
    rw [if_neg hsize.ne', hvectors, ok_bind, if_neg (by omega)]
    rfl

theorem chunkRows_blocks (h : chunkRows enc provider batchSize createdAt docs = .ok rows) :
    ∃ blocks, Blocks enc (fun _ _ => True) provider.modelName createdAt docs blocks ∧
      rows = blocks.flatten := by
  obtain ⟨-, pairs, vectors, hpairs, -, hlen, rfl⟩ := chunkRows_eq_ok.mp h
  apply docPieces_blocks.mp
  refine ⟨pairs, vectors, hpairs, ?_, rfl⟩
  apply List.forall₂_of_length_eq_of_get hlen
  intros
  trivial

/-- The provider embeds each text by itself. -/
def Independent (provider : EmbeddingProvider F) (embed : Text → Except Exn (List F)) : Prop :=
  ∀ texts, provider.embedDocuments texts = texts.mapM embed

/-- The text embeds to this vector. -/
def Embeds (embed : Text → Except Exn (List F)) (text : Text) (vector : List F) : Prop :=
  embed text = .ok vector

theorem Independent.embedBatches {embed : Text → Except Exn (List F)}
    (h : Independent provider embed) (batches : List (List Text)) :
    embedBatches provider batches = batches.flatten.mapM embed := by
  induction batches with
  | nil => rfl
  | cons batch batches ih =>
    rw [Ingestion.embedBatches, h, ih, List.flatten_cons, List.mapM_append]

/-- With such a provider the batch size does not matter. -/
theorem Independent.chunkRows_iff {embed : Text → Except Exn (List F)}
    (h : Independent provider embed) (hsize : 0 < batchSize) :
    chunkRows enc provider batchSize createdAt docs = .ok rows ↔
      ∃ blocks, Blocks enc (Embeds embed) provider.modelName createdAt docs blocks ∧
        rows = blocks.flatten := by
  rw [← docPieces_blocks, chunkRows_eq_ok]
  constructor
  · rintro ⟨-, pairs, vectors, hpairs, hvectors, hlen, rfl⟩
    rw [h.embedBatches, flatten_toChunks, mapM_eq_ok, List.forall₂_map_left_iff] at hvectors
    exact ⟨pairs, vectors, hpairs, hvectors, rfl⟩
  · rintro ⟨pairs, vectors, hpairs, hvectors, rfl⟩
    refine ⟨hsize, pairs, vectors, hpairs, ?_, hvectors.length_eq, rfl⟩
    rw [h.embedBatches, flatten_toChunks, mapM_eq_ok, List.forall₂_map_left_iff]
    exact hvectors

end Calls

end GroundedOps.Ingestion
