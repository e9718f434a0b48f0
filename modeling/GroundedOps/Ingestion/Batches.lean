import GroundedOps.Ingestion.Idempotence

/-!
# A batch and its documents

A batch groups its rows by document id. It does the same as one call for each document
unless an id is repeated: then the group holds the rows of all versions of the document.
-/

namespace GroundedOps.Ingestion

open Python Program ChunkTable

variable {F : Type} {dim : ℕ}

/-! ### Tables up to dates -/

/-- The tables hold the same rows except for the dates. -/
def SameUndated (t t' : ChunkTable F dim) : Prop :=
  ∀ k, (t.rows.get? k).map ChunkRow.undated = (t'.rows.get? k).map ChunkRow.undated

theorem SameUndated.refl (t : ChunkTable F dim) : SameUndated t t := fun _ => rfl

theorem SameUndated.upsertAll {t t' : ChunkTable F dim} {rs rs' : List (ChunkRow F)}
    (ht : SameUndated t t') (h : ∀ r ∈ rs, Storable dim r) (h' : ∀ r ∈ rs', Storable dim r)
    (hrs : rs.map ChunkRow.undated = rs'.map ChunkRow.undated) :
    SameUndated (upsertAll rs h t) (upsertAll rs' h' t') := by
  induction rs generalizing rs' t t' with
  | nil =>
    obtain rfl : rs' = [] := List.map_eq_nil_iff.mp hrs.symm
    exact ht
  | cons r rs ih =>
    obtain ⟨r', rs', rfl, hr, htail⟩ := List.map_eq_cons_iff.mp hrs.symm
    apply ih _ _ _ htail.symm
    intro k
    rw [get?_upsert, get?_upsert, (ChunkRow.of_undated hr).1]
    split_ifs with hk
    · rw [Option.map_some, Option.map_some, ChunkRow.undated_kept, ChunkRow.undated_kept, hr]
    · exact ht k

theorem SameUndated.deleteOrphans {t t' : ChunkTable F dim} (ht : SameUndated t t')
    (docId : Text) (keep : ℕ) :
    SameUndated (deleteOrphans docId keep t) (deleteOrphans docId keep t') := by
  intro k
  have hk := ht k
  rw [Ingestion.deleteOrphans, Ingestion.deleteOrphans, get?_delete, get?_delete]
  cases hr : t.rows.get? k with
  | none =>
    cases hr' : t'.rows.get? k with
    | none => rfl
    | some r' =>
      rw [hr, hr'] at hk
      cases hk
  | some r =>
    cases hr' : t'.rows.get? k with
    | none =>
      rw [hr, hr'] at hk
      cases hk
    | some r' =>
      rw [hr, hr'] at hk
      obtain ⟨-, hdoc, hindex, -⟩ := ChunkRow.of_undated (Option.some.inj hk)
      simp only [Option.filter, hdoc, hindex]
      split_ifs
      · exact hk
      · rfl

theorem accepted_undated {rs : List (ChunkRow F)} :
    Accepted dim (rs.map ChunkRow.undated) ↔ Accepted dim rs := by
  rw [Accepted, Accepted, List.forall_mem_map, List.map_map]
  rfl

/-! ### One call for each document -/

section Calls

variable (enc : Tokenizer) (provider : EmbeddingProvider F) (batchSize : ℕ)

/-- A call for every document, each with its own time stamp. Returns the number of chunks. -/
def ingestEach : List (SourceDoc × ℤ) → EStateM Exn (ChunkTable F dim) ℕ
  | [] => pure 0
  | (doc, createdAt) :: calls => do
    let stats ← ingestDocuments enc provider batchSize createdAt [doc]
    let rest ← ingestEach calls
    return stats.chunks + rest

variable {enc provider batchSize} {embed : Text → Except Exn (List F)}
  {t t' : ChunkTable F dim}

/-- What a call with one document does. -/
theorem ingest_one_iff (hindep : Independent provider embed) (hsize : 0 < batchSize)
    {doc : SourceDoc} {createdAt : ℤ} {stats : IngestStats} :
    ingestDocuments enc provider batchSize createdAt [doc] t = .ok stats t' ↔
      ∃ rs, ∃ h : Accepted dim rs,
        DocRows enc (Embeds embed) provider.modelName createdAt doc rs ∧
        stats = ⟨1, rs.length, provider.modelName⟩ ∧
        t' = deleteOrphans doc.docId rs.length (upsertAll rs h.1 t) := by
  have hfinal : ∀ (rs : List (ChunkRow F)) (h : Accepted dim rs), own rs doc.docId = rs →
      final (ingestRows rs [doc] t) =
        deleteOrphans doc.docId rs.length (Ingestion.upsertAll rs h.1 t) := by
    intro rs h hown
    rw [ingestRows_cons, hown, upsertChunks_of_accepted h]
    rfl
  rw [ingest_unrepeated_iff hindep hsize (List.pairwise_singleton _ _)]
  constructor
  · rintro ⟨blocks, hblocks, hall, rfl, rfl⟩
    cases hblocks with
    | @cons _ rs _ _ hrows hnil =>
      cases hnil
      have h := hall rs (List.mem_singleton_self rs)
      rw [List.flatten_singleton]
      refine ⟨rs, h, hrows, rfl, hfinal rs h ?_⟩
      rw [hrows.own_eq, if_pos rfl]
  · rintro ⟨rs, h, hrows, rfl, rfl⟩
    refine ⟨[rs], .cons hrows .nil, by simpa using h, by simp, ?_⟩
    rw [List.flatten_singleton, hfinal rs h]
    rw [hrows.own_eq, if_pos rfl]

theorem ingestEach_cons_iff {doc : SourceDoc} {createdAt : ℤ} {calls : List (SourceDoc × ℤ)}
    {n : ℕ} : ingestEach enc provider batchSize ((doc, createdAt) :: calls) t = .ok n t' ↔
      ∃ stats u m, ingestDocuments enc provider batchSize createdAt [doc] t = .ok stats u ∧
        ingestEach enc provider batchSize calls u = .ok m t' ∧ n = stats.chunks + m := by
  rw [ingestEach, run_bind_eq_ok]
  constructor
  · rintro ⟨stats, u, hone, hrest⟩
    obtain ⟨m, v, hrest, heq⟩ := run_bind_eq_ok.mp hrest
    cases heq
    exact ⟨stats, u, m, hone, hrest, rfl⟩
  · rintro ⟨stats, u, m, hone, hrest, rfl⟩
    exact ⟨stats, u, hone, run_bind_eq_ok.mpr ⟨m, t', hrest, rfl⟩⟩

/-- The rows of the single calls. -/
theorem ingestEach_blocks (hindep : Independent provider embed) (hsize : 0 < batchSize)
    {calls : List (SourceDoc × ℤ)} {n : ℕ}
    (h : ingestEach enc provider batchSize calls t = .ok n t') (createdAt : ℤ) :
    ∃ blocks, Blocks enc (Embeds embed) provider.modelName createdAt (calls.map Prod.fst) blocks ∧
      (∀ rs ∈ blocks, Accepted dim rs) ∧ blocks.flatten.length = n := by
  induction calls generalizing t n with
  | nil =>
    cases h
    exact ⟨[], .nil, by simp, rfl⟩
  | cons call calls ih =>
    obtain ⟨doc, clock⟩ := call
    obtain ⟨stats, u, m, hone, hrest, rfl⟩ := ingestEach_cons_iff.mp h
    obtain ⟨rs, hok, hrows, rfl, -⟩ := (ingest_one_iff hindep hsize).mp hone
    obtain ⟨blocks, hblocks, hall, rfl⟩ := ih hrest
    refine ⟨_ :: blocks, .cons (hrows.dated createdAt) hblocks, ?_, ?_⟩
    · exact List.forall_mem_cons.mpr ⟨hok.dated createdAt, hall⟩
    · rw [List.flatten_cons, List.length_append, List.length_map]

/-- A batch that has the rows of the single calls does what they do. -/
theorem ingestRows_matches (hindep : Independent provider embed) (hsize : 0 < batchSize)
    {rows : List (ChunkRow F)} {calls : List (SourceDoc × ℤ)}
    (hrows : ∀ call ∈ calls, ∀ rs, DocRows enc (Embeds embed) provider.modelName call.2 call.1 rs →
      (own rows call.1.docId).map ChunkRow.undated = rs.map ChunkRow.undated)
    {u : ChunkTable F dim} (hu : SameUndated u t) {n : ℕ}
    (h : ingestEach enc provider batchSize calls t = .ok n t') :
    SameUndated (final (ingestRows rows (calls.map Prod.fst) u)) t' := by
  induction calls generalizing t u n with
  | nil =>
    cases h
    exact hu
  | cons call calls ih =>
    obtain ⟨doc, clock⟩ := call
    obtain ⟨hhead, htail⟩ := List.forall_mem_cons.mp hrows
    obtain ⟨stats, v, m, hone, hrest, rfl⟩ := ingestEach_cons_iff.mp h
    obtain ⟨rs, hok, hdoc, -, rfl⟩ := (ingest_one_iff hindep hsize).mp hone
    have hown := hhead rs hdoc
    have hok' : Accepted dim (own rows doc.docId) := by
      rw [← accepted_undated, hown, accepted_undated]
      exact hok
    have hlen : (own rows doc.docId).length = rs.length := by
      simpa using congrArg List.length hown
    rw [List.map_cons, ingestRows_cons, upsertChunks_of_accepted hok']
    dsimp only
    rw [final_bind_pure, hlen]
    exact ih htail ((hu.upsertAll hok'.1 hok.1 hown).deleteOrphans doc.docId rs.length) hrest

end Calls

/-! ### Repeated ids -/

section Repeated

variable {enc : Tokenizer} {embeds : Text → List F → Prop} {model : Text} {createdAt : ℤ}
  {docs : List SourceDoc} {blocks : List (List (ChunkRow F))}

/-- The number of chunks that a batch counts. -/
def counted (docs : List SourceDoc) (rows : List (ChunkRow F)) : ℕ :=
  (docs.map fun doc => (own rows doc.docId).length).sum

theorem counted_append (docs : List SourceDoc) (rs rows : List (ChunkRow F)) :
    counted docs (rs ++ rows) = counted docs rs + counted docs rows := by
  simp only [counted, own_append, List.length_append, List.sum_map_add]

theorem DocRows.counted_cons {doc : SourceDoc} {rs : List (ChunkRow F)}
    (h : DocRows enc embeds model createdAt doc rs) (docs : List SourceDoc)
    (rows : List (ChunkRow F)) : counted (doc :: docs) (rs ++ rows) =
      rs.length + (own rows doc.docId).length + (counted docs rs + counted docs rows) := by
  rw [counted, List.map_cons, List.sum_cons, own_append, h.own_eq, if_pos rfl, List.length_append,
    ← counted, counted_append]

theorem Blocks.length_le_counted (h : Blocks enc embeds model createdAt docs blocks) :
    blocks.flatten.length ≤ counted docs blocks.flatten := by
  induction h with
  | nil => exact le_rfl
  | @cons doc rs docs blocks hdoc _ ih =>
    rw [List.flatten_cons, hdoc.counted_cons, List.length_append]
    omega

/-- The rows of a repeated document are counted at each of its places. -/
theorem Blocks.unrepeated_of_counted (h : Blocks enc embeds model createdAt docs blocks)
    (hle : counted docs blocks.flatten ≤ blocks.flatten.length) : Unrepeated enc docs := by
  induction h with
  | nil => exact .nil
  | @cons doc rs docs blocks hdoc hblocks ih =>
    have hrest := Blocks.length_le_counted hblocks
    rw [List.flatten_cons, hdoc.counted_cons, List.length_append] at hle
    refine .cons ?_ (ih (by omega))
    intro doc' hdoc' heq
    constructor
    · have hzero : counted docs rs = 0 := by omega
      have hown := List.sum_eq_zero_iff.mp hzero _ (List.mem_map_of_mem hdoc')
      rw [hdoc.own_eq, if_pos heq, List.length_eq_zero_iff] at hown
      exact hdoc.eq_nil_iff.mp hown
    · have hnone : own blocks.flatten doc.docId = [] := by
        rw [← List.length_eq_zero_iff]
        omega
      obtain ⟨rs', hmem, hrows'⟩ := exists_of_forall₂_left hblocks hdoc'
      have hsub : (own rs' doc.docId).Sublist (own blocks.flatten doc.docId) :=
        (List.sublist_flatten_of_mem hmem).filter _
      rw [hnone, hrows'.own_eq, if_pos heq.symm, List.sublist_nil] at hsub
      exact hrows'.eq_nil_iff.mp hsub

end Repeated

/-! ### A batch and its single calls -/

/-- If the single calls succeed, the batch succeeds with the same rows and the same number of
chunks if and only if it repeats no id, apart from documents that stay blank. -/
theorem batch_as_sequence_iff {enc : Tokenizer} {provider : EmbeddingProvider F}
    {embed : Text → Except Exn (List F)} (hindep : Independent provider embed) {batchSize : ℕ}
    (hsize : 0 < batchSize) (createdAt : ℤ) {calls : List (SourceDoc × ℤ)} {n : ℕ}
    {t t₁ : ChunkTable F dim} (h : ingestEach enc provider batchSize calls t = .ok n t₁) :
    (∃ stats t₂, ingestDocuments enc provider batchSize createdAt (calls.map Prod.fst) t =
      .ok stats t₂ ∧ stats.chunks = n ∧ SameUndated t₂ t₁) ↔
        Unrepeated enc (calls.map Prod.fst) := by
  obtain ⟨blocks, hblocks, hall, rfl⟩ := ingestEach_blocks hindep hsize h createdAt
  constructor
  · rintro ⟨stats, t₂, hok, hchunks, -⟩
    obtain ⟨rows, hrows, -, rfl, -⟩ := ingestDocuments_ok_iff.mp hok
    have hrows' := (hindep.chunkRows_iff hsize).mpr ⟨blocks, hblocks, rfl⟩
    obtain rfl := Except.ok.inj (hrows.symm.trans hrows')
    exact Blocks.unrepeated_of_counted hblocks hchunks.le
  · intro hids
    refine ⟨_, _, (ingest_unrepeated_iff hindep hsize hids).mpr
      ⟨blocks, hblocks, hall, rfl, rfl⟩, rfl, ?_⟩
    apply ingestRows_matches hindep hsize ?_ (SameUndated.refl t) h
    intro call hcall rs hrs
    have hown := Blocks.docRows_own hblocks hids call.1 (List.mem_map_of_mem hcall)
    rw [hown.unique (hrs.dated createdAt), List.map_map]
    rfl

/-- Two versions of one document. -/
def revised : List (SourceDoc × ℤ) :=
  [(⟨"RB-1".toList, "runbook".toList, "Rollback".toList, "old".toList, false⟩, 0),
    (⟨"RB-1".toList, "runbook".toList, "Rollback".toList, "new".toList, false⟩, 1)]

theorem batch_as_sequence_iff_revised :
    (∃ stats t₂, ingestDocuments charTokenizer lengthProvider 64 0 (revised.map Prod.fst)
      (ChunkTable.empty : ChunkTable ℕ 1) = .ok stats t₂ ∧ stats.chunks = 2 ∧
        SameUndated t₂ (final (ingestEach charTokenizer lengthProvider 64 revised .empty))) ↔
      Unrepeated charTokenizer (revised.map Prod.fst) :=
  batch_as_sequence_iff lengthProvider_independent (by decide) 0 rfl

/-- Ingested one after the other, the second version replaces the first; in one batch their
rows are one statement, which proposes a key twice and fails. -/
theorem repeated_batch_fails : ¬ ∀ (calls : List (SourceDoc × ℤ)) (t t₁ : ChunkTable ℕ 1) n,
    ingestEach charTokenizer lengthProvider 64 calls t = .ok n t₁ →
    ∃ stats t₂, ingestDocuments charTokenizer lengthProvider 64 0 (calls.map Prod.fst) t =
      .ok stats t₂ ∧ stats.chunks = n ∧ SameUndated t₂ t₁ := by
  intro hall
  obtain ⟨stats, t₂, hok, -⟩ := hall revised .empty _ 2 rfl
  have hfails : ∃ t, ingestDocuments charTokenizer lengthProvider 64 0 (revised.map Prod.fst)
      (ChunkTable.empty : ChunkTable ℕ 1) =
        .error (.other "CardinalityViolationError".toList) t := ⟨_, rfl⟩
  obtain ⟨t, hfails⟩ := hfails
  rw [hok] at hfails
  cases hfails

end GroundedOps.Ingestion
