import GroundedOps.Retrieval.FaissStore

/-!
# The canonical vector store

Each of the two searches is one select statement: conditions, an order and a limit. How far
two vectors are apart, which rows a statement in the order of their distances comes upon, and
which texts match a query and how well, is the database's.
-/

namespace GroundedOps.Retrieval

open Python Ingestion

variable {F : Type}

/-- The functions of the database. `scan` are the rows that a statement ordered by distance comes
upon, in this order, before its conditions and its limit: an index on the embeddings may leave
out rows. -/
structure Database (F : Type) where
  cosineDistance : List F → List F → F
  tsMatch : Text → Text → Bool
  tsRank : Text → Text → F
  scan : SearchArgs F → List (ChunkRow F) → List (ChunkRow F)
  scan_subset : ∀ args rows, scan args rows ⊆ rows

def applyFilters (rows : List (ChunkRow F)) (filters : Option SearchFilters) :
    List (ChunkRow F) :=
  match filters with
  | none => rows
  | some f =>
    let rows := f.sourceTypes.elim rows fun types =>
      rows.filter fun r => types.contains r.sourceType
    f.docIds.elim rows fun ids => rows.filter fun r => ids.contains r.docId

/-- The limit of a statement, which must not be negative. -/
def limit (rows : List (ChunkRow F)) (n : ℤ) : Except Exn (List (ChunkRow F)) :=
  if n < 0 then .error (.other "DBAPIError".toList) else .ok (rows.take n.toNat)

def retrieved (r : ChunkRow F) (score : F) (retriever : Text) : RetrievedChunk F where
  chunkId := r.chunkId
  docId := r.docId
  sourceType := r.sourceType
  title := r.title
  content := r.content
  charStart := r.charStart
  charEnd := r.charEnd
  score := score
  retriever := retriever

namespace PgVectorStore

variable (db : Database F) (rows : List (ChunkRow F))

def search [One F] [Sub F] (args : SearchArgs F) : Except Exn (List (RetrievedChunk F)) := do
  let distance := fun r : ChunkRow F => db.cosineDistance r.embedding args.queryVector
  let found ← limit (applyFilters (db.scan args rows) args.filters) args.topK
  return found.map fun r => retrieved r (1 - distance r) "pgvector".toList

def keywordSearch [LinearOrder F] (query : Text) (topK : ℤ) (filters : Option SearchFilters) :
    Except Exn (List (RetrievedChunk F)) := do
  let rank := fun r : ChunkRow F => db.tsRank r.content query
  let hits := (applyFilters rows filters).filter fun r => db.tsMatch r.content query
  let found ← limit (hits.insertionSort fun r r' => rank r' ≤ rank r) topK
  return found.map fun r => retrieved r (rank r) "keyword".toList

end PgVectorStore

/-- The rows that the filters allow. -/
def allowed (filters : Option SearchFilters) (r : ChunkRow F) : Bool :=
  filters.all fun f => f.allows r.sourceType r.docId

theorem allowed_of_empty {filters : Option SearchFilters}
    (h : filters.any (!·.isEmpty) = false) (r : ChunkRow F) : allowed filters r = true := by
  cases filters with
  | none => rfl
  | some f =>
    obtain ⟨types, ids⟩ := f
    cases types <;> cases ids <;> first | rfl | cases h

theorem applyFilters_eq_filter (rows : List (ChunkRow F)) (filters : Option SearchFilters) :
    applyFilters rows filters = rows.filter (allowed filters) := by
  cases filters with
  | none => exact (List.filter_true rows).symm
  | some f =>
    obtain ⟨types, ids⟩ := f
    cases types with
    | none =>
      cases ids with
      | none => exact (List.filter_true rows).symm
      | some ids => rfl
    | some types =>
      cases ids with
      | none =>
        apply List.filter_congr
        intro r _
        simp [allowed, SearchFilters.allows]
      | some ids =>
        simp only [applyFilters, Option.elim, List.filter_filter]
        apply List.filter_congr
        intro r _
        simp [allowed, SearchFilters.allows, Bool.and_comm]

/-! ### An exact scan -/

section Exact

variable [LinearOrder F]

/-- The database comes upon all rows, the closest first. -/
structure ExactScan (db : Database F) : Prop where
  perm : ∀ args rows, (db.scan args rows).Perm rows
  closest : ∀ args rows, (db.scan args rows).Pairwise fun r r' =>
    db.cosineDistance r.embedding args.queryVector ≤ db.cosineDistance r'.embedding args.queryVector

/-- A database without an index on the embeddings, which sorts the rows. -/
def sortingDatabase (cosineDistance : List F → List F → F) (tsMatch : Text → Text → Bool)
    (tsRank : Text → Text → F) : Database F where
  cosineDistance := cosineDistance
  tsMatch := tsMatch
  tsRank := tsRank
  scan args rows := rows.insertionSort fun r r' =>
    cosineDistance r.embedding args.queryVector ≤ cosineDistance r'.embedding args.queryVector
  scan_subset _ _ := (List.perm_insertionSort _ _).subset

theorem exactScan_sortingDatabase (cosineDistance : List F → List F → F)
    (tsMatch : Text → Text → Bool) (tsRank : Text → Text → F) :
    ExactScan (sortingDatabase cosineDistance tsMatch tsRank) where
  perm _ _ := List.perm_insertionSort _ _
  closest args rows := by
    let closer := fun r r' : ChunkRow F =>
      cosineDistance r.embedding args.queryVector ≤ cosineDistance r'.embedding args.queryVector
    have : IsTrans (ChunkRow F) closer := ⟨fun _ _ _ => le_trans⟩
    have : Std.Total closer := ⟨fun _ _ => le_total _ _⟩
    exact List.pairwise_insertionSort closer rows

end Exact

/-! ### What the searches find -/

theorem limit_eq_ok {rows found : List (ChunkRow F)} {n : ℤ} :
    limit rows n = .ok found ↔ 0 ≤ n ∧ found = rows.take n.toNat := by
  unfold limit
  split_ifs with hn
  · constructor
    · intro h
      cases h
    · intro h
      omega
  · rw [Except.ok.injEq]
    constructor
    · intro h
      exact ⟨by omega, h.symm⟩
    · intro h
      exact h.2.symm

/-- What is found are the first rows of an ordered selection. -/
def Found (selection : List (ChunkRow F)) (n : ℤ) (found : List (RetrievedChunk F)) : Prop :=
  ∃ score : ChunkRow F → F, ∃ retriever,
    found = (selection.take n.toNat).map fun r => retrieved r (score r) retriever

theorem Found.chunkIds {selection : List (ChunkRow F)} {n : ℤ} {found : List (RetrievedChunk F)}
    (h : Found selection n found) :
    chunkIds found = (selection.take n.toNat).map ChunkRow.chunkId := by
  obtain ⟨score, retriever, rfl⟩ := h
  exact List.map_map

theorem Found.exists_row {selection : List (ChunkRow F)} {n : ℤ} {found : List (RetrievedChunk F)}
    (h : Found selection n found) {c : RetrievedChunk F} (hc : c ∈ found) :
    ∃ r ∈ selection, c.sourceType = r.sourceType := by
  obtain ⟨score, retriever, rfl⟩ := h
  obtain ⟨r, hr, rfl⟩ := List.mem_map.mp hc
  exact ⟨r, List.mem_of_mem_take hr, rfl⟩

namespace PgVectorStore

variable (db : Database F) (rows : List (ChunkRow F)) (filters : Option SearchFilters)

/-- The allowed rows, in the order of the scan. -/
def nearest (args : SearchArgs F) : List (ChunkRow F) :=
  (db.scan args rows).filter (allowed args.filters)

/-- The allowed rows that match, the best first. -/
def matching [LinearOrder F] (query : Text) : List (ChunkRow F) :=
  ((rows.filter (allowed filters)).filter fun r => db.tsMatch r.content query).insertionSort
    fun r r' => db.tsRank r'.content query ≤ db.tsRank r.content query

variable {db rows filters}

theorem allowed_of_mem_nearest {args : SearchArgs F} {r : ChunkRow F}
    (h : r ∈ nearest db rows args) : allowed args.filters r :=
  List.of_mem_filter h

theorem allowed_of_mem_matching [LinearOrder F] {query : Text} {r : ChunkRow F}
    (h : r ∈ matching db rows filters query) : allowed filters r := by
  rw [matching, List.mem_insertionSort] at h
  exact List.of_mem_filter (List.mem_of_mem_filter h)

theorem search_found [One F] [Sub F] {args : SearchArgs F} {found : List (RetrievedChunk F)}
    (h : search db rows args = .ok found) : Found (nearest db rows args) args.topK found := by
  unfold search at h
  rw [applyFilters_eq_filter, bind_eq_ok] at h
  obtain ⟨hits, hlimit, hfound⟩ := h
  obtain ⟨-, rfl⟩ := limit_eq_ok.mp hlimit
  exact ⟨_, _, (Except.ok.inj hfound).symm⟩

theorem keywordSearch_found [LinearOrder F] {query : Text} {topK : ℤ}
    {found : List (RetrievedChunk F)}
    (h : keywordSearch db rows query topK filters = .ok found) :
    Found (matching db rows filters query) topK found := by
  unfold keywordSearch at h
  rw [applyFilters_eq_filter, bind_eq_ok] at h
  obtain ⟨hits, hlimit, hfound⟩ := h
  obtain ⟨-, rfl⟩ := limit_eq_ok.mp hlimit
  exact ⟨_, _, (Except.ok.inj hfound).symm⟩

end PgVectorStore

end GroundedOps.Retrieval
