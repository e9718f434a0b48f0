import GroundedOps.Ingestion.ConcurrentIngestion

/-!
# Ingestion is idempotent

A call that completes leaves exactly the rows of its documents, whatever earlier calls have
left behind. The vectors are those of the single texts, so neither the size of the embedding
batches nor the order of the documents shows.
-/

namespace GroundedOps.Ingestion

open Python Program Transition ChunkTable

variable {F : Type} {dim : ℕ}

/-! ### Rows at another time -/

def ChunkRow.dated (createdAt : ℤ) (r : ChunkRow F) : ChunkRow F := { r with createdAt }

section Dated

variable {enc : Tokenizer} {embeds : Text → List F → Prop} {model : Text} {createdAt : ℤ}
  {docs : List SourceDoc} {blocks : List (List (ChunkRow F))}

theorem DocRows.dated {doc : SourceDoc} {rs : List (ChunkRow F)}
    (h : DocRows enc embeds model createdAt doc rs) (createdAt' : ℤ) :
    DocRows enc embeds model createdAt' doc (rs.map (ChunkRow.dated createdAt')) := by
  obtain ⟨pieces, vectors, hpieces, hvectors, rfl⟩ := h
  refine ⟨pieces, vectors, hpieces, hvectors, ?_⟩
  rw [List.map_zipWith]
  rfl

theorem Blocks.dated (h : Blocks enc embeds model createdAt docs blocks) (createdAt' : ℤ) :
    Blocks enc embeds model createdAt' docs (blocks.map (List.map (ChunkRow.dated createdAt'))) :=
  List.forall₂_map_right_iff.mpr (h.imp fun _ _ hrows => hrows.dated createdAt')

theorem Accepted.dated {rs : List (ChunkRow F)} (h : Accepted dim rs) (createdAt : ℤ) :
    Accepted dim (rs.map (ChunkRow.dated createdAt)) := by
  refine ⟨?_, ?_⟩
  · intro r hr
    obtain ⟨x, hx, rfl⟩ := List.mem_map.mp hr
    exact h.1 x hx
  · rw [List.map_map]
    exact h.2

end Dated

/-! ### Batches without repeated ids -/

section Unrepeated

variable {enc : Tokenizer} {provider : EmbeddingProvider F} {embed : Text → Except Exn (List F)}
  {batchSize : ℕ} {createdAt : ℤ} {docs : List SourceDoc} {blocks : List (List (ChunkRow F))}
  {t t' : ChunkTable F dim} {stats : IngestStats}

/-- A document has its rows in one way only. -/
theorem DocRows.unique {model : Text} {doc : SourceDoc} {rs rs' : List (ChunkRow F)}
    (h : DocRows enc (Embeds embed) model createdAt doc rs)
    (h' : DocRows enc (Embeds embed) model createdAt doc rs') : rs = rs' := by
  obtain ⟨pieces, vectors, hpieces, hvectors, rfl⟩ := h
  obtain ⟨pieces', vectors', hpieces', hvectors', rfl⟩ := h'
  obtain rfl := Except.ok.inj (hpieces.symm.trans hpieces')
  have hunique : Relator.RightUnique fun (piece : ChunkPiece) v => Embeds embed piece.content v :=
    fun _ _ _ hv hv' => Except.ok.inj (hv.symm.trans hv')
  rw [List.right_unique_forall₂' hunique hvectors hvectors']

theorem Blocks.map_own {model : Text} (h : Blocks enc (Embeds embed) model createdAt docs blocks)
    (hids : Unrepeated enc docs) :
    docs.map (fun doc => own blocks.flatten doc.docId) = blocks := by
  rw [← List.forall₂_eq_eq_eq, List.forall₂_map_left_iff]
  exact Blocks.own_of_unrepeated h hids

theorem Blocks.accepted_iff {model : Text}
    (h : Blocks enc (Embeds embed) model createdAt docs blocks)
    (hids : Unrepeated enc docs) :
    (∀ doc ∈ docs, Accepted dim (own blocks.flatten doc.docId)) ↔
      ∀ rs ∈ blocks, Accepted dim rs := by
  have hmap := List.forall_mem_map (l := docs) (f := fun doc => own blocks.flatten doc.docId)
    (P := Accepted dim)
  rw [Blocks.map_own h hids] at hmap
  exact hmap.symm

theorem Blocks.sum_own {model : Text} (h : Blocks enc (Embeds embed) model createdAt docs blocks)
    (hids : Unrepeated enc docs) :
    (docs.map fun doc => (own blocks.flatten doc.docId).length).sum = blocks.flatten.length := by
  rw [List.length_flatten]
  conv_rhs => rw [← Blocks.map_own h hids, List.map_map]
  rfl

theorem ingest_unrepeated_iff (hindep : Independent provider embed) (hsize : 0 < batchSize)
    (hids : Unrepeated enc docs) :
    ingestDocuments enc provider batchSize createdAt docs t = .ok stats t' ↔
      ∃ blocks, Blocks enc (Embeds embed) provider.modelName createdAt docs blocks ∧
        (∀ rs ∈ blocks, Accepted dim rs) ∧
        stats = ⟨docs.length, blocks.flatten.length, provider.modelName⟩ ∧
        t' = final (ingestRows blocks.flatten docs t) := by
  rw [ingestDocuments_ok_iff]
  constructor
  · rintro ⟨rows, hrows, hall, hstats, hfinal⟩
    obtain ⟨blocks, hblocks, rfl⟩ := (hindep.chunkRows_iff hsize).mp hrows
    rw [Blocks.sum_own hblocks hids] at hstats
    exact ⟨blocks, hblocks, (Blocks.accepted_iff hblocks hids).mp hall, hstats, hfinal⟩
  · rintro ⟨blocks, hblocks, hall, hstats, hfinal⟩
    refine ⟨_, (hindep.chunkRows_iff hsize).mpr ⟨blocks, hblocks, rfl⟩,
      (Blocks.accepted_iff hblocks hids).mpr hall, ?_, hfinal⟩
    rw [hstats, Blocks.sum_own hblocks hids]

theorem Blocks.ingested {model : Text} (h : Blocks enc (Embeds embed) model createdAt docs blocks)
    (hids : Unrepeated enc docs) (hall : ∀ rs ∈ blocks, Accepted dim rs)
    (ht : t.Addressed) :
    Ingested blocks.flatten (docs.map SourceDoc.docId) t
      (final (ingestRows blocks.flatten docs t)) := by
  have hin := ingestRows_ingested (Blocks.versions h : Versions dim _ _) ht
  rwa [replaced_of_all ((Blocks.accepted_iff h hids).mpr hall)] at hin

theorem Blocks.docRows_own {model : Text} (h : Blocks enc (Embeds embed) model createdAt docs blocks)
    (hids : Unrepeated enc docs) :
    ∀ doc ∈ docs, DocRows enc (Embeds embed) model createdAt doc (own blocks.flatten doc.docId) := by
  have hrows := h
  rw [Blocks, ← Blocks.map_own h hids, List.forall₂_map_right_iff, List.forall₂_same] at hrows
  exact hrows

end Unrepeated

/-! ### The same rows -/

section Same

variable {t t' t'' : ChunkTable F dim} {rows rows' : List (ChunkRow F)} {ids : List Text}

/-- The tables hold the same rows. -/
def SameRows (t t' : ChunkTable F dim) : Prop := t.rows.values.Perm t'.rows.values

theorem sameRows_of_cells (ht : t.Addressed) (ht' : t'.Addressed)
    (h : ∀ d i, t.cell d i = t'.cell d i) : SameRows t t' := by
  apply (List.perm_ext_iff_of_nodup t.nodup_values t'.nodup_values).mpr
  intro r
  rw [mem_values, mem_values, ht.get?_eq_some, ht'.get?_eq_some, h]

theorem rowsOf_perm_of_cells (ht : t.Addressed) (ht' : t'.Addressed) {docId : Text}
    (h : ∀ i, t.cell docId i = t'.cell docId i) : (t.rowsOf docId).Perm (t'.rowsOf docId) := by
  apply (List.perm_ext_iff_of_nodup (t.nodup_values.filter _) (t'.nodup_values.filter _)).mpr
  intro r
  rw [← rowsOf, ← rowsOf, ht.mem_rowsOf, ht'.mem_rowsOf]
  simp only [h]

theorem Ingested.rowsOf_perm (h : Ingested rows ids t t') {docId : Text} (hid : docId ∈ ids)
    (hversion : Version docId (own rows docId)) :
    (t'.rowsOf docId).Perm ((own rows docId).map fun r => r.kept (t.rows.get? r.chunkId)) := by
  apply h.addressed.rowsOf_perm
  intro i
  rw [h.written docId hid i, List.getElem?_map]
  cases hr : (own rows docId)[i]? with
  | none => rfl
  | some r => rw [Option.map_some, Option.map_some, (hversion.getElem? hr).2.2, cell]

theorem Ingested.congr {ids' : List Text} (h : Ingested rows ids t t')
    (hids : ∀ d, d ∈ ids ↔ d ∈ ids') : Ingested rows ids' t t' where
  addressed := h.addressed
  written d hd := h.written d ((hids d).mpr hd)
  others d hd := h.others d fun hmem => hd ((hids d).mp hmem)

theorem Ingested.sameRows (h : Ingested rows ids t t') (h' : Ingested rows' ids t t'')
    (hown : ∀ d ∈ ids, own rows d = own rows' d) : SameRows t' t'' := by
  apply sameRows_of_cells h.addressed h'.addressed
  intro d i
  by_cases hd : d ∈ ids
  · rw [h.written d hd, h'.written d hd, hown d hd]
  · rw [h.others d hd, h'.others d hd]

/-- The same rows again, at another time, change nothing. -/
theorem Ingested.again (h : Ingested rows ids t t') {createdAt : ℤ}
    (h' : Ingested (rows.map (ChunkRow.dated createdAt)) ids t' t'') : SameRows t'' t' := by
  apply sameRows_of_cells h'.addressed h.addressed
  intro d i
  by_cases hd : d ∈ ids
  · have hown : own (rows.map (ChunkRow.dated createdAt)) d =
        (own rows d).map (ChunkRow.dated createdAt) := List.filter_map
    rw [h'.written d hd, h.written d hd, hown, List.getElem?_map]
    cases (own rows d)[i]? <;> rfl
  · exact h'.others d hd i

theorem length_filter_docIds (l : List (ChunkRow F)) (hids : ids.Nodup) :
    (l.filter fun r => r.docId ∈ ids).length =
      (ids.map fun d => (l.filter fun r => r.docId = d).length).sum := by
  induction ids with
  | nil => simp
  | cons d ids ih =>
    rw [List.nodup_cons] at hids
    rw [List.map_cons, List.sum_cons, ← ih hids.2]
    clear ih
    induction l with
    | nil => rfl
    | cons r l ih =>
      by_cases hr : r.docId = d
      · have hno : r.docId ∉ ids := hr ▸ hids.1
        simp [hr, hids.1] at ih ⊢
        omega
      · by_cases hmem : r.docId ∈ ids
        · simp [hr, hmem] at ih ⊢
          omega
        · simp [hr, hmem] at ih ⊢
          omega

end Same

/-! ### Whole batches -/

section Batches

variable {enc : Tokenizer} {provider : EmbeddingProvider F} {embed : Text → Except Exn (List F)}
  {createdAt : ℤ} {docs docs' : List SourceDoc} {blocks : List (List (ChunkRow F))}

/-- The documents of a batch in another order have the same rows. -/
theorem Blocks.perm {model : Text} (h : Blocks enc (Embeds embed) model createdAt docs blocks)
    (hids : Unrepeated enc docs) (hids' : Unrepeated enc docs') (hperm : docs'.Perm docs) :
    ∃ blocks', Blocks enc (Embeds embed) model createdAt docs' blocks' ∧ blocks'.Perm blocks ∧
      ∀ doc ∈ docs, own blocks.flatten doc.docId = own blocks'.flatten doc.docId := by
  have hblocks' : Blocks enc (Embeds embed) model createdAt docs'
      (docs'.map fun doc => own blocks.flatten doc.docId) := by
    rw [Blocks, List.forall₂_map_right_iff, List.forall₂_same]
    intro doc hdoc
    exact Blocks.docRows_own h hids doc (hperm.subset hdoc)
  refine ⟨_, hblocks', ?_, ?_⟩
  · have hmap := hperm.map fun doc => own blocks.flatten doc.docId
    rwa [Blocks.map_own h hids] at hmap
  · intro doc hdoc
    have hmap := Blocks.map_own hblocks' hids'
    exact (List.map_inj_left.mp hmap doc (hperm.symm.subset hdoc)).symm

/-- A call that completes leaves exactly the rows of its documents and touches no others.
Neither a second call nor another batch size or order of the documents changes anything. -/
theorem ingest_idempotent {steps : List (Step (Writers F dim) (Act F))} {s : Writers F dim}
    (hrun : Run Steps {} steps s) (hindep : Independent provider embed) {batchSize : ℕ}
    (hsize : 0 < batchSize) (hids : (docs.map SourceDoc.docId).Nodup) {stats : IngestStats}
    {t' : ChunkTable F dim}
    (hok : ingestDocuments enc provider batchSize createdAt docs s.table = .ok stats t') :
    (∀ doc ∈ docs, ∃ rs, DocRows enc (Embeds embed) provider.modelName createdAt doc rs ∧
      (∀ i r, rs[i]? = some r → r.chunkId = chunkId doc.docId i) ∧
      (t'.rowsOf doc.docId).Perm (rs.map fun r => r.kept (s.table.rows.get? r.chunkId))) ∧
    (∀ d, d ∉ docs.map SourceDoc.docId → (t'.rowsOf d).Perm (s.table.rowsOf d)) ∧
    stats.chunks = (t'.rows.values.filter fun r => r.docId ∈ docs.map SourceDoc.docId).length ∧
    (∀ createdAt', ∃ t'', ingestDocuments enc provider batchSize createdAt' docs t' =
      .ok stats t'' ∧ SameRows t'' t') ∧
    ∀ batchSize' docs', 0 < batchSize' → docs'.Perm docs →
      ∃ t'', ingestDocuments enc provider batchSize' createdAt docs' s.table = .ok stats t'' ∧
        SameRows t'' t' := by
  have ht := (sound_of_run hrun sound_start).addressed
  have hids' := unrepeated_of_nodup enc hids
  obtain ⟨blocks, hblocks, hall, rfl, rfl⟩ := (ingest_unrepeated_iff hindep hsize hids').mp hok
  have hin := Blocks.ingested hblocks hids' hall ht
  have hrows := Blocks.docRows_own hblocks hids'
  have hperm : ∀ doc ∈ docs, _ := fun doc hdoc =>
    hin.rowsOf_perm (List.mem_map_of_mem hdoc) (hrows doc hdoc).version
  refine ⟨?_, ?_, ?_, ?_, ?_⟩
  · intro doc hdoc
    refine ⟨_, hrows doc hdoc, ?_, hperm doc hdoc⟩
    intro i r hr
    exact ((hrows doc hdoc).version.getElem? hr).2.2
  · intro d hd
    exact rowsOf_perm_of_cells hin.addressed ht (hin.others d hd)
  · rw [length_filter_docIds _ hids, List.map_map, ← Blocks.sum_own hblocks hids']
    apply congrArg List.sum
    apply List.map_congr_left
    intro doc hdoc
    rw [Function.comp, ← rowsOf, (hperm doc hdoc).length_eq, List.length_map]
  · intro createdAt'
    have hflat : (blocks.map (List.map (ChunkRow.dated createdAt'))).flatten =
        blocks.flatten.map (ChunkRow.dated createdAt') := List.map_flatten.symm
    have hblocks' := Blocks.dated hblocks createdAt'
    have hall' : ∀ rs ∈ blocks.map (List.map (ChunkRow.dated createdAt')), Accepted dim rs := by
      rw [List.forall_mem_map]
      exact fun rs hrs => (hall rs hrs).dated createdAt'
    have hin' := Blocks.ingested hblocks' hids' hall' hin.addressed
    refine ⟨_, (ingest_unrepeated_iff hindep hsize hids').mpr ⟨_, hblocks', hall', ?_, rfl⟩, ?_⟩
    · rw [hflat, List.length_map]
    · rw [hflat] at hin' ⊢
      exact hin.again hin'
  · intro batchSize' docs' hsize' hdocs
    have hids'' := unrepeated_of_nodup enc ((hdocs.map SourceDoc.docId).nodup_iff.mpr hids)
    obtain ⟨blocks', hblocks', hperm', hown⟩ := Blocks.perm hblocks hids' hids'' hdocs
    have hall' : ∀ rs ∈ blocks', Accepted dim rs := fun rs hrs => hall rs (hperm'.subset hrs)
    have hin' := Blocks.ingested hblocks' hids'' hall' ht
    refine ⟨_, (ingest_unrepeated_iff hindep hsize' hids'').mpr ⟨_, hblocks', hall', ?_, rfl⟩, ?_⟩
    · rw [hdocs.length_eq, hperm'.flatten.length_eq]
    · apply (hin'.congr fun d => (hdocs.map SourceDoc.docId).mem_iff).sameRows hin
      rw [List.forall_mem_map]
      exact fun doc hdoc => (hown doc hdoc).symm

end Batches

theorem lengthProvider_independent :
    Independent lengthProvider fun text => .ok [text.length] := by
  intro texts
  symm
  apply mapM_eq_ok.mpr
  rw [List.forall₂_map_right_iff]
  exact List.forall₂_same.mpr fun _ _ => rfl

/-- A document that was left half replaced is healed by ingesting it again. -/
theorem ingest_idempotent_mixed :
    ∃ t', ingestDocuments charTokenizer lengthProvider 64 1 (rollback "# c".toList).docs
        mixed.table = .ok ⟨1, 1, "m".toList⟩ t' ∧
      (∃ rs, (t'.rowsOf "RB-1".toList).Perm rs ∧ rs.map ChunkRow.content = ["# c".toList]) ∧
      ∀ createdAt', ∃ t'', ingestDocuments charTokenizer lengthProvider 64 createdAt'
        (rollback "# c".toList).docs t' = .ok ⟨1, 1, "m".toList⟩ t'' ∧ SameRows t'' t' :=
  ⟨_, rfl, ⟨_, List.Perm.refl _, rfl⟩,
    (ingest_idempotent shrinkingSteps_run lengthProvider_independent (by decide) (by decide)
      rfl).2.2.2.1⟩

end GroundedOps.Ingestion
