import GroundedOps.Library.FirstOccurrences
import GroundedOps.Python.Sequences
import GroundedOps.Retrieval.FilteredSearch

/-!
# Document rankings

The metrics are about documents: the chunks that a search returns are reduced to their
documents, in the order of their best chunks. Three times as many chunks are searched for as
documents are scored. How many documents they belong to depends on the corpus.
-/

namespace GroundedOps.Eval

open Python Ingestion Retrieval

/-! ### Metrics -/

/-- The set of the documents seen so far has the members of the output. -/
def dedupPreserveOrder (docIds : List Text) : List Text :=
  docIds.foldl (fun out docId => if docId ∈ out then out else out ++ [docId]) []

/-- Fraction of the relevant documents among the first `k`. -/
def recallAtK (ranked : List Text) (relevant : Finset Text) (k : ℤ) : ℚ :=
  if relevant = ∅ then 0 else ((sliceTo ranked k).toFinset ∩ relevant).card / relevant.card

theorem dedupPreserveOrder_isPrefix (l l' : List Text) :
    dedupPreserveOrder l <+: dedupPreserveOrder (l ++ l') := by
  have hextends : ∀ (l out : List Text),
      out <+: l.foldl (fun out docId => if docId ∈ out then out else out ++ [docId]) out := by
    intro l
    induction l with
    | nil => exact fun out => List.prefix_rfl
    | cons docId l ih =>
      intro out
      rw [List.foldl_cons]
      split_ifs
      · exact ih out
      · exact (List.prefix_append out [docId]).trans (ih _)
  rw [dedupPreserveOrder, dedupPreserveOrder, List.foldl_append]
  exact hextends l' _

theorem dedupPreserveOrder_eq (docIds : List Text) :
    dedupPreserveOrder docIds = firstsBy id docIds := by
  induction docIds using List.reverseRecOn with
  | nil => rfl
  | append_singleton docIds docId ih =>
    have hmem : docId ∈ (firstsBy id docIds).map id ↔ docId ∈ docIds.map id := mem_map_firstsBy
    rw [List.map_id] at hmem
    rw [dedupPreserveOrder] at ih ⊢
    rw [List.foldl_append, List.foldl_cons, List.foldl_nil, ih, firstsBy_concat, id_eq]
    by_cases hseen : docId ∈ docIds.map id
    · rw [if_pos (hmem.mpr hseen), if_pos hseen]
    · rw [if_neg fun h => hseen (hmem.mp h), if_neg hseen]

theorem nodup_dedupPreserveOrder (docIds : List Text) : (dedupPreserveOrder docIds).Nodup := by
  have hnodup : ((firstsBy id docIds).map id).Nodup := nodup_map_firstsBy docIds
  rwa [List.map_id, ← dedupPreserveOrder_eq] at hnodup

/-! ### The scored ranking -/

variable {F : Type} {dim : ℕ}

/-- `search` is the search of one of the stores. -/
def docRanking (search : SearchArgs F → Except Exn (List (RetrievedChunk F)))
    (queryVector : List F) (topK : ℤ) : Except Exn (List Text) := do
  let chunks ← search ⟨queryVector, topK * 3, none⟩
  return sliceTo (dedupPreserveOrder (chunks.map RetrievedChunk.docId)) topK

section Stores

/-- The chunks in the order of the statement that searches for them, before its limit. -/
def chunkRanking (db : Database F) (query : List F) (topK : ℤ) (rows : List (ChunkRow F)) :
    List (ChunkRow F) :=
  db.scan ⟨query, topK * 3, none⟩ rows

/-- The documents of ranked chunks, in the order of their best chunks. -/
def completeRanking (ranked : List (ChunkRow F)) : List Text :=
  dedupPreserveOrder (ranked.map ChunkRow.docId)

/-- The best `3 * k` chunks belong to `k` documents, or to all. -/
def EnoughDocs (ranked : List (ChunkRow F)) (k : ℕ) : Prop :=
  min k (completeRanking ranked).length ≤ (completeRanking (ranked.take (3 * k))).length

variable {db : Database F} {rows : List (ChunkRow F)} {query : List F}

/-- A store that finds the best chunks gives the first of all documents if and only if it finds
enough of them. -/
theorem docRanking_iff {search : SearchArgs F → Except Exn (List (RetrievedChunk F))} {k : ℕ}
    {ranked : List (ChunkRow F)} {found : List (RetrievedChunk F)}
    (hfound : search ⟨query, (k : ℤ) * 3, none⟩ = .ok found)
    (hdocs : found.map RetrievedChunk.docId = (ranked.take (3 * k)).map ChunkRow.docId) :
    ∃ ranking, docRanking search query k = .ok ranking ∧ ranking.Nodup ∧
      (ranking = sliceTo (completeRanking ranked) k ↔ EnoughDocs ranked k) := by
  refine ⟨sliceTo (dedupPreserveOrder (found.map RetrievedChunk.docId)) k, ?_, ?_, ?_⟩
  · rw [docRanking, hfound]
    rfl
  · exact (sliceTo_sublist _ _).nodup (nodup_dedupPreserveOrder _)
  · have hinit : completeRanking (ranked.take (3 * k)) <+: completeRanking ranked := by
      have hparts := dedupPreserveOrder_isPrefix ((ranked.take (3 * k)).map ChunkRow.docId)
        ((ranked.drop (3 * k)).map ChunkRow.docId)
      rwa [← List.map_append, List.take_append_drop] at hparts
    have hiff := map_take_eq_iff_of_isPrefix hinit id k
    rw [List.map_id, List.map_id] at hiff
    rw [sliceTo_natCast, sliceTo_natCast, hdocs]
    exact hiff

theorem pgSearch_docs [One F] [Sub F] (db : Database F) (rows : List (ChunkRow F)) (query : List F)
    (k : ℕ) :
    ∃ found, PgVectorStore.search db rows ⟨query, (k : ℤ) * 3, none⟩ = .ok found ∧
      found.map RetrievedChunk.docId =
        ((chunkRanking db query k rows).take (3 * k)).map ChunkRow.docId := by
  have hpos : ¬ (k : ℤ) * 3 < 0 := by omega
  have hcount : ((k : ℤ) * 3).toNat = 3 * k := by omega
  refine ⟨_, by rw [PgVectorStore.search]; dsimp only; rw [limit, if_neg hpos]; rfl, ?_⟩
  rw [List.map_map, hcount]
  rfl

variable [LinearOrder F] [AddCommGroup F] [One F] [IsOrderedAddMonoid F]

theorem flatSearch_docs {engine : Engine F} {table : ChunkTable F dim}
    {chunks : List (StoredChunk F)} {s : FaissStore F} {query : List F}
    (hflat : FlatSearch (similarity db) engine) (hload : LoadAll table chunks) (hs : Holds s chunks)
    (hkind : ∀ index, s.index = some index → index.kind = .flat)
    (hdistinct : (table.rows.values.map fun r => similarity db query r.embedding).Nodup) {k : ℕ}
    (hk : 1 ≤ k) :
    ∃ found, s.search engine ⟨query, (k : ℤ) * 3, none⟩ = .ok found ∧
      found.map RetrievedChunk.docId =
        ((bestFirst db query table.rows.values).take (3 * k)).map ChunkRow.docId := by
  obtain ⟨n, hn⟩ : ∃ n, 3 * k = n + 1 := ⟨3 * k - 1, by omega⟩
  have htop : (⟨query, (k : ℤ) * 3, none⟩ : SearchArgs F).topK = n + 1 := by
    have hcast : ((3 * k : ℕ) : ℤ) = n + 1 := by exact_mod_cast hn
    rw [← hcast]
    push_cast
    exact mul_comm _ _
  obtain ⟨ranking, hperm, hdesc, hsearch⟩ := search_eq hflat hs hload.nodup hkind htop
  rw [ranking_eq (hperm.trans hload) hdesc hdistinct] at hsearch
  refine ⟨_, hsearch, ?_⟩
  rw [hn]
  have hall : ∀ l : List (StoredChunk F), l.filter (allowedChunk none) = l := fun l =>
    List.filter_eq_self.mpr fun _ _ => rfl
  simp only [fetched, Option.any_none, Bool.false_eq_true, if_false, hall, List.take_take, min_self,
    ← List.map_take, List.map_map]
  rfl

/-- The scored ranking, of either store, has no document twice, and is the first part of the
complete one if and only if the chunks that were searched for belong to enough documents. -/
theorem doc_ranking_complete_iff {db : Database F} (hexact : ExactScan db)
    (table : ChunkTable F dim) (query : List F) {topK : ℤ} (hk : 1 ≤ topK) :
    (∃ ranking, docRanking (PgVectorStore.search db table.rows.values) query topK = .ok ranking ∧
      ranking.Nodup ∧
      (ranking = sliceTo (completeRanking (chunkRanking db query topK table.rows.values)) topK ↔
        EnoughDocs (chunkRanking db query topK table.rows.values) topK.toNat)) ∧
    ∀ engine s chunks, FlatSearch (similarity db) engine → LoadAll table chunks →
      Holds s chunks → (∀ index, s.index = some index → index.kind = .flat) →
      (table.rows.values.map fun r => similarity db query r.embedding).Nodup →
      ∃ ranking, docRanking (s.search engine) query topK = .ok ranking ∧ ranking.Nodup ∧
        (ranking = sliceTo (completeRanking (chunkRanking db query topK table.rows.values)) topK ↔
          EnoughDocs (chunkRanking db query topK table.rows.values) topK.toNat) := by
  obtain ⟨k, rfl⟩ := Int.eq_ofNat_of_zero_le (by omega : 0 ≤ topK)
  rw [Int.toNat_natCast]
  constructor
  · obtain ⟨found, hfound, hdocs⟩ := pgSearch_docs db table.rows.values query k
    exact docRanking_iff hfound hdocs
  · intro engine s chunks hflat hload hs hkind hdistinct
    obtain ⟨found, hfound, hdocs⟩ :=
      flatSearch_docs hflat hload hs hkind hdistinct (by omega : 1 ≤ k)
    have hranked : chunkRanking db query k table.rows.values =
        bestFirst db query table.rows.values :=
      scan_eq_bestFirst hexact hdistinct
    rw [hranked]
    exact docRanking_iff hfound hdocs

end Stores

/-! ### A document with many chunks -/

def longRow (id docId : Text) (x y : ℚ) : ChunkRow ℚ := { unitRow id "runbook".toList x y with docId }

/-- Six chunks of one document are closer to the first axis than the one of the other. -/
def longRows : List (ChunkRow ℚ) :=
  [longRow "RB-1::0".toList "RB-1".toList 1 0,
    longRow "RB-1::1".toList "RB-1".toList (12 / 13) (5 / 13),
    longRow "RB-1::2".toList "RB-1".toList (15 / 17) (8 / 17),
    longRow "RB-1::3".toList "RB-1".toList (4 / 5) (3 / 5),
    longRow "RB-1::4".toList "RB-1".toList (3 / 5) (4 / 5),
    longRow "RB-1::5".toList "RB-1".toList (5 / 13) (12 / 13),
    longRow "RB-2::0".toList "RB-2".toList 0 1]

def longTable : ChunkTable ℚ 2 where
  rows := ⟨longRows.map fun r => (r.chunkId, r), by decide⟩
  keyed := ChunkTable.keyed_map longRows
  sized := ChunkTable.sized_map (by simp [longRows, longRow, unitRow])

theorem doc_ranking_complete_iff_long :
    ∃ ranking, docRanking (PgVectorStore.search unitVectors longTable.rows.values) [1, 0] 2 =
        .ok ranking ∧ ranking.Nodup ∧
      (ranking = sliceTo (completeRanking (chunkRanking unitVectors [1, 0] 2
          longTable.rows.values)) 2 ↔
        EnoughDocs (chunkRanking unitVectors [1, 0] 2 longTable.rows.values) 2) :=
  (doc_ranking_complete_iff (exactScan_sortingDatabase _ _ _) longTable [1, 0]
    (by decide : (1 : ℤ) ≤ 2)).1

/-- The second document is not in the ranking, and its recall is zero. -/
theorem long_document_hides_other :
    (docRanking (PgVectorStore.search unitVectors longTable.rows.values) [1, 0] 2).toOption =
        some ["RB-1".toList] ∧
      sliceTo (completeRanking (chunkRanking unitVectors [1, 0] 2 longTable.rows.values)) 2 =
        ["RB-1".toList, "RB-2".toList] ∧
      recallAtK ["RB-1".toList] {"RB-2".toList} 2 = 0 ∧
      recallAtK ["RB-1".toList, "RB-2".toList] {"RB-2".toList} 2 = 1 := by
  and_intros
  all_goals decide +kernel

end GroundedOps.Eval
