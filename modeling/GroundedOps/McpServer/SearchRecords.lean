import GroundedOps.Python.Json
import GroundedOps.Retrieval.HybridSearch

/-!
# The search tool

The tool caps the number of records that a request may ask for, and only from above. The two
searches of a request run in two sessions; each of them sees its own rows.
-/

namespace GroundedOps.McpServer

open Python Ingestion Retrieval PgVectorStore

variable {F : Type}

/-- The parts of the settings, the models and the database that the tool uses. -/
structure SearchServer (F : Type) where
  maxQueryChars : ℕ
  rrfK : ℕ := 60
  modelName : Text
  embedQuery : Text → Except Exn (List F)
  storedEmbeddingModel : Except Exn (Option Text)
  reranker : Option (List (Text × Text) → Except Exn (List F)) := none
  database : Database F

/-- `round4 x` stands for `round(x, 4)`. -/
def searchRecord (round4 : F → F) (c : RetrievedChunk F) : List (Text × Json F) :=
  [("chunk_id".toList, .str c.chunkId), ("doc_id".toList, .str c.docId),
    ("source_type".toList, .str c.sourceType), ("title".toList, .str c.title),
    ("snippet".toList, .str ((join " ".toList (split c.content)).take 300)),
    ("score".toList, .float (round4 c.score))]

/-- `SearchFilters(...) if source_types else None` -/
def searchFilters (sourceTypes : Option (List Text)) : Option SearchFilters :=
  match sourceTypes with
  | none => none
  | some types => if types.isEmpty then none else some { sourceTypes := some types }

section Tool

variable [Zero F] [Add F] [One F] [Sub F] [LinearOrder F] (reciprocal : ℕ → F) (round4 : F → F)
  (server : SearchServer F) (dense keyword : List (ChunkRow F))

def buildRetrievalService : RetrievalService F where
  modelName := server.modelName
  embedQuery := server.embedQuery
  storedEmbeddingModel := server.storedEmbeddingModel
  search := PgVectorStore.search server.database dense
  keywordSearch := PgVectorStore.keywordSearch server.database keyword
  rrfK := server.rrfK
  reranker := server.reranker

def searchChunks (query : Text) (sourceTypes : Option (List Text)) (topK : ℤ) :
    Except Exn (List (RetrievedChunk F)) :=
  (buildRetrievalService server dense keyword).retrieve reciprocal
    (query.take server.maxQueryChars) (min topK 20) (searchFilters sourceTypes) false

def searchRecords (query : Text) (sourceTypes : Option (List Text)) (topK : ℤ) :
    Except Exn (List (List (Text × Json F))) := do
  let chunks ← searchChunks reciprocal server dense keyword query sourceTypes topK
  return chunks.map (searchRecord round4)

end Tool

/-! ### The cap -/

/-- What a caller may expect of the records. -/
structure Capped (sourceTypes : Option (List Text)) (topK : ℤ)
    (records : List (List (Text × Json F))) : Prop where
  length : records.length ≤ min (max topK 0) 20
  distinct : (records.map (Json.lookup "chunk_id".toList)).Nodup
  filtered : ∀ types, sourceTypes = some types → types ≠ [] → ∀ record ∈ records,
    ∃ t ∈ types, Json.lookup "source_type".toList record = some (.str t)

/-- The identifiers of the at most 25 rows that each search contributes to a small request. -/
def pooledIds [LinearOrder F] (db : Database F) (dense keyword : List (ChunkRow F))
    (filters : Option SearchFilters) (queryVector : List F) (query : Text) : Finset Text :=
  (((nearest db dense ⟨queryVector, 25, filters⟩).take 25).map ChunkRow.chunkId ++
    ((matching db keyword filters query).take 25).map ChunkRow.chunkId).toFinset

@[simp] theorem lookup_chunkId (round4 : F → F) (c : RetrievedChunk F) :
    Json.lookup "chunk_id".toList (searchRecord round4 c) = some (.str c.chunkId) := rfl

theorem nodup_recordIds (round4 : F → F) {chunks : List (RetrievedChunk F)}
    (h : (chunkIds chunks).Nodup) :
    ((chunks.map (searchRecord round4)).map (Json.lookup "chunk_id".toList)).Nodup := by
  have hinj : Function.Injective fun id : Text => some (Json.str (F := F) id) := by
    intro id id' heq
    cases heq
    rfl
  have hmap := h.map hinj
  rw [chunkIds, List.map_map] at hmap
  rw [List.map_map]
  exact hmap

theorem length_fused [Zero F] [Add F] [LinearOrder F] (reciprocal : ℕ → F) (k : ℕ)
    (dense keyword : List (RetrievedChunk F)) :
    (reciprocalRankFusion reciprocal [dense, keyword] k none).length =
      (chunkIds dense ++ chunkIds keyword).toFinset.card := by
  have hnodup : (chunkIds (reciprocalRankFusion reciprocal [dense, keyword] k none)).Nodup :=
    nodup_fused
  have hids : (chunkIds (reciprocalRankFusion reciprocal [dense, keyword] k none)).toFinset =
      (chunkIds dense ++ chunkIds keyword).toFinset := by
    ext id
    rw [List.mem_toFinset, List.mem_toFinset, mem_chunkIds_fused, List.mem_append]
    simp
  rw [← hids, List.toFinset_card_of_nodup hnodup, chunkIds, List.length_map]

/-- Only the types of a list that is not empty are a filter. -/
theorem mem_of_allowed {types : List Text} (hne : types ≠ []) {r : ChunkRow F}
    (h : allowed (searchFilters (some types)) r) : r.sourceType ∈ types := by
  rw [searchFilters, if_neg (by simpa using hne)] at h
  simpa [allowed, SearchFilters.allows] using h

section Tool

variable [Zero F] [Add F] [One F] [Sub F] [LinearOrder F] {reciprocal : ℕ → F} {round4 : F → F}
  {server : SearchServer F} {dense keyword : List (ChunkRow F)} {query : Text}
  {sourceTypes : Option (List Text)} {topK : ℤ}

/-- What the tool returns is cut out of a list without duplicates in which all chunks are of the
wanted types. -/
theorem searchChunks_ok {chunks : List (RetrievedChunk F)} {queryVector : List F}
    (h : searchChunks reciprocal server dense keyword query sourceTypes topK = .ok chunks)
    (hvector : server.embedQuery (query.take server.maxQueryChars) = .ok queryVector) :
    ∃ ranked : List (RetrievedChunk F), chunks = sliceTo ranked (min topK 20) ∧
      (chunkIds ranked).Nodup ∧
      (∀ types, sourceTypes = some types → types ≠ [] → ∀ c ∈ ranked, c.sourceType ∈ types) ∧
      (topK < 0 → ranked.length = (pooledIds server.database dense keyword
        (searchFilters sourceTypes) queryVector (query.take server.maxQueryChars)).card) := by
  obtain ⟨vector, found, found', hvector', hdense, hkeyword, ranked, rfl, hperm⟩ := retrieve_ok h
  cases hvector.symm.trans hvector'
  have hdense : Found _ _ found := search_found hdense
  have hkeyword : Found _ _ found' := keywordSearch_found hkeyword
  have hids : (chunkIds ranked).Perm
      (chunkIds (reciprocalRankFusion reciprocal [found, found'] server.rrfK none)) := by
    rw [chunkIds_eq_provenance, chunkIds_eq_provenance]
    exact hperm.map Provenance.chunkId
  refine ⟨ranked, rfl, hids.nodup_iff.mpr nodup_fused, ?_, ?_⟩
  · rintro types rfl hne c hc
    have hmem := hperm.subset (List.mem_map_of_mem hc)
    obtain ⟨fused, hfused, hprovenance⟩ := List.mem_map.mp hmem
    have htype : fused.sourceType = c.sourceType := congrArg Provenance.sourceType hprovenance
    rw [← htype]
    obtain ⟨ranking, hranking, d, hd, rfl⟩ := exists_of_mem_fused hfused
    rw [List.mem_pair] at hranking
    rcases hranking with rfl | rfl
    · obtain ⟨r, hr, hsame⟩ := hdense.exists_row hd
      exact hsame ▸ mem_of_allowed hne (allowed_of_mem_nearest hr)
    · obtain ⟨r, hr, hsame⟩ := hkeyword.exists_row hd
      exact hsame ▸ mem_of_allowed hne (allowed_of_mem_matching hr)
  · intro hneg
    have hpool : max (min topK 20 * 4) 25 = 25 := by omega
    have hlength := hids.length_eq
    rw [chunkIds, List.length_map, chunkIds, List.length_map, length_fused, hdense.chunkIds,
      hkeyword.chunkIds, hpool] at hlength
    exact hlength

/-- The cap holds unless the number is negative and more chunks are found than it takes away. -/
theorem records_capped_iff {records : List (List (Text × Json F))} {queryVector : List F}
    (h : searchRecords reciprocal round4 server dense keyword query sourceTypes topK = .ok records)
    (hvector : server.embedQuery (query.take server.maxQueryChars) = .ok queryVector) :
    Capped sourceTypes topK records ↔ 0 ≤ topK ∨ (pooledIds server.database dense keyword
      (searchFilters sourceTypes) queryVector (query.take server.maxQueryChars)).card ≤
        topK.natAbs := by
  rw [searchRecords, bind_eq_ok] at h
  obtain ⟨chunks, hchunks, hrecords⟩ := h
  obtain ⟨ranked, rfl, hnodup, htypes, hcard⟩ := searchChunks_ok hchunks hvector
  cases hrecords
  have hlength := length_sliceTo ranked (min topK 20)
  constructor
  · intro hcapped
    by_cases hneg : topK < 0
    · have hcap := hcapped.length
      rw [List.length_map, hlength, if_neg (by omega), hcard hneg] at hcap
      right
      omega
    · left
      omega
  · intro hfew
    refine ⟨?_, ?_, ?_⟩
    · rw [List.length_map, hlength]
      split_ifs with hpos
      · omega
      · have hneg : topK < 0 := by omega
        have hcard := hcard hneg
        omega
    · exact nodup_recordIds round4 (((sliceTo_sublist ranked _).map _).nodup hnodup)
    · intro types hsome hne record hrecord
      obtain ⟨c, hc, rfl⟩ := List.mem_map.mp hrecord
      exact ⟨c.sourceType, htypes types hsome hne c (sliceTo_subset _ _ hc), rfl⟩

end Tool

/-- `round(x, 4)` in exact arithmetic: ties go to the even one. -/
def roundFourDigits (x : ℚ) : ℚ :=
  let n := ⌊10000 * x⌋
  let rest := 10000 * x - n
  if rest < 1 / 2 ∨ rest = 1 / 2 ∧ n % 2 = 0 then n / 10000 else (n + 1) / 10000

/-- Six rows, all of which match. -/
def unitServer : SearchServer ℚ where
  maxQueryChars := 4000
  modelName := ['m']
  embedQuery _ := .ok [1, 0]
  storedEmbeddingModel := .ok (some ['m'])
  database := unitVectors

def unitRecords (topK : ℤ) : Except Exn (List (List (Text × Json ℚ))) :=
  searchRecords inverse roundFourDigits unitServer unitRows unitRows "outage".toList none topK

theorem records_capped_iff_units : ∃ records, unitRecords 3 = .ok records ∧
    (Capped none 3 records ↔ 0 ≤ (3 : ℤ) ∨
      (pooledIds unitServer.database unitRows unitRows (searchFilters none) [1, 0]
        ("outage".toList.take unitServer.maxQueryChars)).card ≤ (3 : ℤ).natAbs) := by
  have hsome : (unitRecords 3).toOption.isSome = true := by decide +kernel
  obtain ⟨records, h⟩ := exists_ok_of_isSome hsome
  exact ⟨records, h, records_capped_iff h rfl⟩

/-- A negative number takes records away from those found. -/
theorem negative_top_k_not_capped : ∃ records, unitRecords (-1) = .ok records ∧
    records.length = 5 ∧ ¬ Capped none (-1) records := by
  have hlength : (unitRecords (-1)).toOption.map List.length = some 5 := by decide +kernel
  obtain ⟨records, h, hfive⟩ := exists_ok_of_map hlength
  refine ⟨records, h, hfive, ?_⟩
  intro hcapped
  have hcap := hcapped.length
  rw [hfive] at hcap
  exact absurd hcap (by decide)

end GroundedOps.McpServer
