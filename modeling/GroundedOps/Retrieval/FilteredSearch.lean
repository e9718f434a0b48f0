import GroundedOps.Library.Lists
import GroundedOps.Library.Ranking
import GroundedOps.Retrieval.PgVectorStore
import GroundedOps.Retrieval.StoreContents

/-!
# Filtered search in both stores

The database filters all rows and then takes the best; the derived store takes five times as
many hits as are asked for and filters those. If the vector library orders all vectors of a
flat index exactly, and the database its rows, both searches return the same chunks if and
only if enough of the rows that match are among those hits.
-/

namespace GroundedOps.Retrieval

open Python Ingestion Ranking

variable {F : Type} {dim : ℕ}

/-! ### The loop over the hits -/

section Loop

variable {s : FaissStore F} {args : SearchArgs F}

/-- The label leads to the chunk. -/
def Labels (s : FaissStore F) (label : ℤ) (c : StoredChunk F) : Prop :=
  0 ≤ label ∧ s.idMap[label.toNat]? = some c.chunkId ∧
    s.metadata.get? c.chunkId = some c.metadata

theorem labels_of_holds {chunks : List (StoredChunk F)} (hs : Holds s chunks)
    (hnodup : (chunks.map StoredChunk.chunkId).Nodup) {i : ℕ} {c : StoredChunk F}
    (hc : chunks[i]? = some c) : Labels s i c := by
  refine ⟨Int.natCast_nonneg i, ?_, hs.get? hnodup (List.mem_of_getElem? hc)⟩
  rw [Int.toNat_natCast, hs.idMap, List.getElem?_map, hc, Option.map_some]

def allowedChunk (filters : Option SearchFilters) (c : StoredChunk F) : Bool :=
  filters.all fun f => f.allows c.metadata.sourceType c.metadata.docId

theorem skips_eq (filters : Option SearchFilters) (c : StoredChunk F) :
    (filters.any fun f => !f.allows c.metadata.sourceType c.metadata.docId) =
      !allowedChunk filters c := by
  cases filters <;> rfl

/-- How many hits are fetched for the best `n`. -/
def fetched (filters : Option SearchFilters) (n : ℕ) : ℕ :=
  if filters.any (!·.isEmpty) then n * 5 else n

theorem searchStart_eq {index : Index F} (hindex : s.index = some index) (hsize : s.size ≠ 0)
    {k : ℕ}
    (hk : args.topK = k) :
    s.searchStart args = some (index, ((min (fetched args.filters k) s.size : ℕ) : ℤ)) := by
  unfold FaissStore.searchStart fetched
  rw [hindex, hk]
  simp only [if_neg hsize, Nat.cast_min]
  split_ifs <;> simp

/-- The hits that are allowed are returned in order, until there are enough. -/
theorem searchLoop_eq {hits : List (F × ℤ)} {ps : List (F × StoredChunk F)}
    (h : List.Forall₂ (fun hit p => hit.1 = p.1 ∧ Labels s hit.2 p.2) hits ps)
    {out : List (RetrievedChunk F)} {left : ℕ} (hleft : args.topK = out.length + (left + 1)) :
    s.searchLoop args hits out = .ok (out ++
      ((ps.filter fun p => allowedChunk args.filters p.2).take (left + 1)).map fun p =>
        FaissStore.result p.2.chunkId p.2.metadata p.1) := by
  induction h generalizing out left with
  | nil => simp [FaissStore.searchLoop]
  | @cons hit p hits ps hp _ ih =>
    obtain ⟨score, label⟩ := hit
    obtain ⟨hscore, hlabel, hid, hmeta⟩ := hp
    obtain rfl : score = p.1 := hscore
    rw [FaissStore.searchLoop, if_neg (by simpa using hlabel)]
    simp only [hid, hmeta, skips_eq, List.filter_cons]
    by_cases hallowed : allowedChunk args.filters p.2 = true
    · rw [if_neg (by simp [hallowed]), if_pos hallowed, List.take_succ_cons, List.map_cons]
      cases left with
      | zero => rw [if_pos (by simp [hleft]), List.take_zero, List.map_nil]
      | succ left =>
        have hmore : ¬ args.topK ≤
            (out ++ [FaissStore.result p.2.chunkId p.2.metadata p.1]).length := by
          rw [List.length_append, List.length_singleton, hleft]
          push_cast
          omega
        have hrest : args.topK =
            (out ++ [FaissStore.result p.2.chunkId p.2.metadata p.1]).length + (left + 1) := by
          rw [List.length_append, List.length_singleton, hleft]
          push_cast
          omega
        rw [if_neg hmore, ih hrest, List.append_assoc]
        rfl
    · rw [if_pos (by simpa using hallowed), if_neg hallowed]
      exact ih hleft

end Loop

/-! ### Exact search in a flat index -/

section Flat

variable [LinearOrder F] {similarity : List F → List F → F} {engine : Engine F}

/-- The library searches a flat index exhaustively: it returns the first positions of an order
of all vectors by descending similarity. -/
def FlatSearch (similarity : List F → List F → F) (engine : Engine F) : Prop :=
  ∀ (index : Index F) (query : List F) (fetch : ℕ), index.kind = .flat →
    fetch ≤ index.vectors.length →
      ∃ order : List ℕ, order.Perm (List.range index.vectors.length) ∧
        (order.Pairwise fun i j => similarity query (index.vectors.getD j []) ≤
          similarity query (index.vectors.getD i [])) ∧
        engine.search index query fetch =
          .ok ((order.take fetch).map fun i => (similarity query (index.vectors.getD i []), (i : ℤ)))

variable {s : FaissStore F} {chunks : List (StoredChunk F)} {args : SearchArgs F} {k : ℕ}

/-- The first hits of the library are those of a ranking of the chunks. -/
theorem FlatSearch.ranks (hflat : FlatSearch similarity engine) (hs : Holds s chunks)
    (hnodup : (chunks.map StoredChunk.chunkId).Nodup) {index : Index F}
    (hvectors : index.vectors = chunks.map StoredChunk.embedding) (hkind : index.kind = .flat)
    (c₀ : StoredChunk F) (query : List F) {fetch : ℕ} (hfetch : fetch ≤ chunks.length) :
    ∃ (ranking : List (StoredChunk F)) (hits : List (F × ℤ)), ranking.Perm chunks ∧
      (ranking.Pairwise fun c d => similarity query d.embedding ≤ similarity query c.embedding) ∧
      engine.search index query fetch = .ok hits ∧
      List.Forall₂ (fun hit p => hit.1 = p.1 ∧ Labels s hit.2 p.2) hits
        ((ranking.take fetch).map fun c => (similarity query c.embedding, c)) := by
  have hlength : index.vectors.length = chunks.length := by rw [hvectors, List.length_map]
  obtain ⟨order, hperm, hdesc, hsearch⟩ := hflat index query fetch hkind (hlength ▸ hfetch)
  have hrange : ∀ i ∈ order, i < chunks.length := by
    intro i hi
    rw [← hlength]
    exact List.mem_range.mp (hperm.mem_iff.mp hi)
  have hvector : ∀ i ∈ order, index.vectors.getD i [] = (chunks.getD i c₀).embedding := by
    intro i hi
    have hlt := hrange i hi
    rw [hvectors]
    simp [hlt]
  refine ⟨order.map fun i => chunks.getD i c₀, _, ?_, ?_, hsearch, ?_⟩
  · have hmap := hperm.map fun i => chunks.getD i c₀
    rwa [hlength, map_getD_range] at hmap
  · rw [List.pairwise_map]
    apply hdesc.imp_of_mem
    intro i j hi hj hle
    rwa [hvector i hi, hvector j hj] at hle
  · rw [← List.map_take, List.map_map, List.forall₂_map_left_iff, List.forall₂_map_right_iff,
      List.forall₂_same]
    intro i hi
    have hi := List.mem_of_mem_take hi
    refine ⟨by rw [hvector i hi]; rfl, labels_of_holds hs hnodup ?_⟩
    simp [hrange i hi]

/-- A search in a store that holds the chunks takes the allowed ones among the first hits of
their ranking. -/
theorem search_eq (hflat : FlatSearch similarity engine) (hs : Holds s chunks)
    (hnodup : (chunks.map StoredChunk.chunkId).Nodup)
    (hkind : ∀ index, s.index = some index → index.kind = .flat) (hk : args.topK = k + 1) :
    ∃ ranking : List (StoredChunk F), ranking.Perm chunks ∧
      (ranking.Pairwise fun c d =>
        similarity args.queryVector d.embedding ≤ similarity args.queryVector c.embedding) ∧
      s.search engine args = .ok
        ((((ranking.take (fetched args.filters (k + 1))).filter
          (allowedChunk args.filters)).take (k + 1)).map fun c =>
            FaissStore.result c.chunkId c.metadata
              (similarity args.queryVector c.embedding)) := by
  obtain ⟨index, hindex, hvectors⟩ := hs.exists_index
  have hsize : s.size = chunks.length := by rw [FaissStore.size, hs.idMap, List.length_map]
  cases hchunks : chunks with
  | nil =>
    refine ⟨[], .nil, .nil, ?_⟩
    have hnone : s.size = 0 := by rw [hsize, hchunks, List.length_nil]
    simp only [FaissStore.search, FaissStore.searchStart, hindex, if_pos hnone]
    simp
  | cons c₀ rest =>
    have hsome : s.size ≠ 0 := by rw [hsize, hchunks]; exact Nat.succ_ne_zero _
    have hfetch : min (fetched args.filters (k + 1)) s.size ≤ chunks.length := by
      rw [← hsize]
      exact min_le_right _ _
    obtain ⟨ranking, hits, hperm, hdesc, hsearch, hlabels⟩ := hflat.ranks hs hnodup hvectors
      (hkind index hindex) c₀ args.queryVector hfetch
    have htake : ranking.take (min (fetched args.filters (k + 1)) s.size) =
        ranking.take (fetched args.filters (k + 1)) := by
      rw [← List.take_take, hsize, ← hperm.length_eq, List.take_length]
    have hleft : args.topK = ([] : List (RetrievedChunk F)).length + (k + 1) := by simpa using hk
    have htop : args.topK = (k + 1 : ℕ) := by exact_mod_cast hk
    have hloop := searchLoop_eq hlabels hleft
    refine ⟨ranking, hchunks ▸ hperm, hdesc, ?_⟩
    rw [FaissStore.search, searchStart_eq hindex hsome htop]
    dsimp only
    rw [FaissStore.searchFinish, hsearch, ok_bind, hloop, htake, List.filter_map, ← List.map_take,
      List.map_map]
    rfl

/-- A library that orders all vectors. -/
def exhaustive (similarity : List F → List F → F) : Engine F where
  search index query fetch :=
    let score := fun i => similarity query (index.vectors.getD i [])
    let order := (List.range index.vectors.length).insertionSort fun i j => score j ≤ score i
    .ok ((order.take fetch.toNat).map fun i => (score i, (i : ℤ)))
  label_lt index query fetch hits h hit hhit := by
    cases h
    obtain ⟨i, hi, rfl⟩ := List.mem_map.mp hhit
    have hmem := (List.perm_insertionSort _ _).mem_iff.mp (List.mem_of_mem_take hi)
    exact Int.ofNat_lt.mpr (List.mem_range.mp hmem)

theorem flatSearch_exhaustive (similarity : List F → List F → F) :
    FlatSearch similarity (exhaustive similarity) := by
  intro index query fetch _ _
  let score := fun i => similarity query (index.vectors.getD i [])
  refine ⟨(List.range index.vectors.length).insertionSort fun i j => score j ≤ score i,
    List.perm_insertionSort _ _, ?_, rfl⟩
  have : IsTrans ℕ fun i j => score j ≤ score i := ⟨fun _ _ _ hij hjl => hjl.trans hij⟩
  have : Std.Total fun i j => score j ≤ score i := ⟨fun i j => le_total (score j) (score i)⟩
  exact List.pairwise_insertionSort _ _

end Flat

/-! ### The two stores -/

section Stores

variable [LinearOrder F]

/-- All rows, the most similar first. -/
def bestFirst (db : Database F) (query : List F) (rows : List (ChunkRow F)) : List (ChunkRow F) :=
  rows.insertionSort fun r r' =>
    db.cosineDistance r.embedding query ≤ db.cosineDistance r'.embedding query

/-- Among the first hits of the derived store there are enough rows that match. -/
def Covered (db : Database F) (rows : List (ChunkRow F)) (args : SearchArgs F) : Prop :=
  min args.topK.toNat (rows.countP (allowed args.filters)) ≤
    ((bestFirst db args.queryVector rows).take (5 * args.topK.toNat)).countP (allowed args.filters)

variable {db : Database F} {rows : List (ChunkRow F)} {query : List F}

theorem bestFirst_perm (rows : List (ChunkRow F)) : (bestFirst db query rows).Perm rows :=
  List.perm_insertionSort _ _

variable [AddCommGroup F] [One F] [IsOrderedAddMonoid F]

/-- The cosine similarity of a stored vector to the query. -/
def similarity (db : Database F) (query vector : List F) : F := 1 - db.cosineDistance vector query

theorem compare_distances (r r' : ChunkRow F) :
    db.cosineDistance r.embedding query ≤ db.cosineDistance r'.embedding query ↔
      similarity db query r'.embedding ≤ similarity db query r.embedding :=
  (sub_le_sub_iff_left 1).symm

theorem descending_bestFirst (h : (rows.map fun r => similarity db query r.embedding).Nodup) :
    Descending (fun r => similarity db query r.embedding) (bestFirst db query rows) :=
  descending_insertionSort compare_distances h.of_map fun _ hr _ hr' =>
    List.inj_on_of_nodup_map h hr hr'

variable {args : SearchArgs F} {k : ℕ}

theorem scan_eq_bestFirst (hexact : ExactScan db)
    (h : (rows.map fun r => similarity db args.queryVector r.embedding).Nodup) :
    db.scan args rows = bestFirst db args.queryVector rows := by
  have hperm := hexact.perm args rows
  have hdesc : Descending (fun r => similarity db args.queryVector r.embedding)
      (db.scan args rows) :=
    descending_of_nodup ((hexact.closest args rows).imp (compare_distances _ _).mp)
      ((hperm.map _).nodup_iff.mpr h)
  exact hdesc.eq_of_perm (descending_bestFirst h) (hperm.trans (bestFirst_perm rows).symm)

theorem pgSearch_eq (hexact : ExactScan db)
    (h : (rows.map fun r => similarity db args.queryVector r.embedding).Nodup)
    (hk : args.topK = k) :
    PgVectorStore.search db rows args = .ok
      ((((bestFirst db args.queryVector rows).filter (allowed args.filters)).take k).map fun r =>
        retrieved r (similarity db args.queryVector r.embedding) "pgvector".toList) := by
  have hpos : ¬ (k : ℤ) < 0 := by omega
  rw [PgVectorStore.search, scan_eq_bestFirst hexact h, applyFilters_eq_filter, hk]
  dsimp only
  rw [limit, if_neg hpos, Int.toNat_natCast]
  rfl

/-- Without filters the number of hits that are fetched makes no difference. -/
theorem take_filter_fetched {α : Type} {p : α → Bool} (l : List α) (filters : Option SearchFilters)
    (hp : filters.any (!·.isEmpty) = false → ∀ a ∈ l, p a = true) (k : ℕ) :
    ((l.take (fetched filters k)).filter p).take k = ((l.take (5 * k)).filter p).take k := by
  unfold fetched
  split_ifs with hany
  · rw [Nat.mul_comm]
  · have hall := hp (Bool.eq_false_iff.mpr hany)
    have hkeep : ∀ n, (l.take n).filter p = l.take n :=
      fun n => List.filter_eq_self.mpr fun a ha => hall a (List.mem_of_mem_take ha)
    rw [hkeep, hkeep, List.take_take, List.take_take, min_self, min_eq_left (by omega)]

variable {engine : Engine F} {table : ChunkTable F dim} {chunks : List (StoredChunk F)}
  {s : FaissStore F}

/-- A ranking of the stored chunks is that of their rows if the similarities are distinct. -/
theorem ranking_eq {ranking : List (StoredChunk F)}
    (hperm : ranking.Perm (rows.map StoredChunk.ofRow))
    (hdesc : ranking.Pairwise fun c d =>
      similarity db query d.embedding ≤ similarity db query c.embedding)
    (h : (rows.map fun r => similarity db query r.embedding).Nodup) :
    ranking = (bestFirst db query rows).map StoredChunk.ofRow := by
  have hsims : (ranking.map fun c => similarity db query c.embedding).Perm
      (rows.map fun r => similarity db query r.embedding) := by
    have hmap := hperm.map fun c => similarity db query c.embedding
    rwa [List.map_map] at hmap
  have hstrict : Descending (fun c => similarity db query c.embedding) ranking :=
    descending_of_nodup hdesc (hsims.nodup_iff.mpr h)
  have hrows : Descending (fun c => similarity db query c.embedding)
      ((bestFirst db query rows).map StoredChunk.ofRow) :=
    List.pairwise_map.mpr (descending_bestFirst h)
  exact hstrict.eq_of_perm hrows (hperm.trans ((bestFirst_perm rows).symm.map _))

/-- The derived store returns the same chunks as the canonical one if and only if enough of the
matching rows are among its hits. -/
theorem filtered_search_agrees_iff (hflat : FlatSearch (similarity db) engine)
    (hexact : ExactScan db) (hload : LoadAll table chunks) (hs : Holds s chunks)
    (hkind : ∀ index, s.index = some index → index.kind = .flat) (hk : 1 ≤ args.topK)
    (hdistinct : (table.rows.values.map fun r =>
      similarity db args.queryVector r.embedding).Nodup) :
    ∃ out found, s.search engine args = .ok out ∧
      PgVectorStore.search db table.rows.values args = .ok found ∧
      found.length = min args.topK.toNat (table.rows.values.countP (allowed args.filters)) ∧
      (chunkIds out = chunkIds found ↔ Covered db table.rows.values args) := by
  obtain ⟨k, hk⟩ : ∃ k : ℕ, args.topK = k + 1 := ⟨(args.topK - 1).toNat, by omega⟩
  have htop : args.topK = (k + 1 : ℕ) := by exact_mod_cast hk
  obtain ⟨ranking, hperm, hdesc, hsearch⟩ := search_eq hflat hs hload.nodup hkind hk
  rw [ranking_eq (hperm.trans hload) hdesc hdistinct] at hsearch
  refine ⟨_, _, hsearch, pgSearch_eq hexact hdistinct htop, ?_, ?_⟩
  · rw [List.length_map, List.length_take, ← List.countP_eq_length_filter,
      (bestFirst_perm _).countP_eq, htop, Int.toNat_natCast]
  · generalize hbest : bestFirst db args.queryVector table.rows.values = best
    have hcount : best.countP (allowed args.filters) =
        table.rows.values.countP (allowed args.filters) := by
      rw [← hbest, (bestFirst_perm _).countP_eq]
    have hinit : (best.take (5 * (k + 1))).filter (allowed args.filters) <+:
        best.filter (allowed args.filters) := (List.take_prefix _ _).filter _
    have hout : (((best.map StoredChunk.ofRow).take (fetched args.filters (k + 1))).filter
        (allowedChunk args.filters)).take (k + 1) =
          (((best.take (5 * (k + 1))).filter (allowed args.filters)).take (k + 1)).map
            StoredChunk.ofRow := by
      rw [← List.map_take, List.filter_map, ← List.map_take]
      congr 1
      exact take_filter_fetched best args.filters (fun h r _ => allowed_of_empty h r) (k + 1)
    rw [hout, chunkIds, chunkIds, List.map_map, List.map_map, List.map_map, Covered, hbest, htop,
      Int.toNat_natCast, ← hcount, List.countP_eq_length_filter, List.countP_eq_length_filter]
    exact map_take_eq_iff_of_isPrefix hinit ChunkRow.chunkId (k + 1)

end Stores

/-! ### Five better hits of another type -/

/-- A database whose vectors have length one. -/
def unitVectors : Database ℚ :=
  sortingDatabase (fun vector query => 1 - (List.zipWith (· * ·) vector query).sum)
    (fun _ _ => true) fun _ _ => 0

def unitRow (id sourceType : Text) (x y : ℚ) : ChunkRow ℚ :=
  ⟨id, id, sourceType, [], 0, 0, 1, ['a'], [x, y], ['m'], 0⟩

/-- Five runbooks that are closer to the first axis than the one postmortem. -/
def unitRows : List (ChunkRow ℚ) :=
  [unitRow "RB-1".toList "runbook".toList 1 0,
    unitRow "RB-2".toList "runbook".toList (12 / 13) (5 / 13),
    unitRow "RB-3".toList "runbook".toList (4 / 5) (3 / 5),
    unitRow "RB-4".toList "runbook".toList (3 / 5) (4 / 5),
    unitRow "RB-5".toList "runbook".toList (5 / 13) (12 / 13),
    unitRow "INC-1".toList "postmortem".toList 0 1]

def unitTable : ChunkTable ℚ 2 where
  rows := ⟨unitRows.map fun r => (r.chunkId, r), by decide⟩
  keyed := ChunkTable.keyed_map unitRows
  sized := ChunkTable.sized_map (by simp [unitRows, unitRow])

def unitChunks : List (StoredChunk ℚ) := unitRows.map StoredChunk.ofRow

def unitStore : FaissStore ℚ :=
  ({ dim := 2 } : FaissStore ℚ).publish ⟨.flat, 2, unitChunks.map StoredChunk.embedding⟩ unitChunks ['m']

/-- The best postmortem for a query along the first axis. -/
def bestPostmortem : SearchArgs ℚ := ⟨[1, 0], 1, some { sourceTypes := some ["postmortem".toList] }⟩

theorem unitTable_values : unitTable.rows.values = unitRows := by
  simp [unitTable, Dict.values, Function.comp_def]

theorem filtered_search_agrees_iff_units :
    ∃ out found, unitStore.search (exhaustive (similarity unitVectors)) bestPostmortem = .ok out ∧
      PgVectorStore.search unitVectors unitTable.rows.values bestPostmortem = .ok found ∧
      found.length = min 1 (unitTable.rows.values.countP (allowed bestPostmortem.filters)) ∧
      (chunkIds out = chunkIds found ↔
        Covered unitVectors unitTable.rows.values bestPostmortem) := by
  have hload : LoadAll unitTable unitChunks := by
    rw [LoadAll, unitTable_values]
    exact .refl _
  apply filtered_search_agrees_iff (flatSearch_exhaustive _)
    (exactScan_sortingDatabase _ _ _) hload
  · exact ⟨rfl, rfl, rfl⟩
  · rintro _ ⟨⟩
    rfl
  · decide
  · rw [unitTable_values]
    decide +kernel

/-- The postmortem is not among the five hits. -/
theorem matching_row_missed :
    (unitStore.search (exhaustive (similarity unitVectors)) bestPostmortem).toOption.map chunkIds =
        some [] ∧
      (PgVectorStore.search unitVectors unitTable.rows.values bestPostmortem).toOption.map chunkIds =
        some ["INC-1".toList] := by
  constructor
  · decide +kernel
  · decide +kernel

end GroundedOps.Retrieval
