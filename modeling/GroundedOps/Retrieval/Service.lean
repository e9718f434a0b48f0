import GroundedOps.Ingestion.ConcurrentIngestion
import GroundedOps.Retrieval.Types

/-!
# The model check of the retrieval service

Before it searches, the service compares the query model with the model of one stored row.
The query that reads it has no order: the row may be any. What the check says about the
other rows depends on how the table was filled.
-/

namespace GroundedOps.Retrieval

open Python Ingestion Program Transition ChunkTable

variable {F : Type} {dim : ℕ}

structure EmbeddingMismatchError where
  message : Text
  deriving DecidableEq

/-- What `SELECT embedding_model ... LIMIT 1` may return. -/
inductive StoredEmbeddingModel (t : ChunkTable F dim) : Option Text → Prop
  | empty : t.rows.values = [] → StoredEmbeddingModel t none
  | row (r) : r ∈ t.rows.values → StoredEmbeddingModel t (some r.embeddingModel)

def mismatchMessage (modelName stored : Text) : Text :=
  "Query model '".toList ++ modelName ++ "' does not match the model stored in the index ('".toList
    ++ stored ++ "'). Re-embed the corpus or switch back.".toList

def assertModelMatches (modelName : Text) (stored : Option Text) :
    Except EmbeddingMismatchError Unit :=
  match stored with
  | none => .ok ()
  | some stored =>
    if stored ≠ modelName then .error ⟨mismatchMessage modelName stored⟩ else .ok ()

/-- The rows that the filters leave to the two searches. -/
def rankable (t : ChunkTable F dim) (filters : Option SearchFilters) : List (ChunkRow F) :=
  t.rows.values.filter fun r => filters.all fun f => f.allows r.sourceType r.docId

/-- Whichever row is read, if the check passes, all rows that can be ranked have the model of
the query. -/
def Checked (t : ChunkTable F dim) : Prop :=
  ∀ modelName stored filters, StoredEmbeddingModel t stored →
    assertModelMatches modelName stored = .ok () →
      ∀ r ∈ rankable t filters, r.embeddingModel = modelName

/-- All stored rows have one model. -/
def Uniform (t : ChunkTable F dim) : Prop :=
  ∀ r ∈ t.rows.values, ∀ r' ∈ t.rows.values, r.embeddingModel = r'.embeddingModel

theorem assertModelMatches_some {modelName stored : Text} :
    assertModelMatches modelName (some stored) = .ok () ↔ stored = modelName := by
  rw [assertModelMatches]
  split_ifs with h <;> simpa using h

theorem checked_iff_uniform {t : ChunkTable F dim} : Checked t ↔ Uniform t := by
  constructor
  · intro h r hr r' hr'
    have hrank : r' ∈ rankable t none := by
      rw [rankable, List.mem_filter]
      exact ⟨hr', rfl⟩
    exact (h r.embeddingModel _ none (.row r hr) (assertModelMatches_some.mpr rfl) r' hrank).symm
  · intro h modelName stored filters hstored hpass r hr
    have hmem := (List.mem_filter.mp hr).1
    cases hstored with
    | empty hnone =>
      rw [hnone] at hmem
      cases hmem
    | row x hx =>
      rw [← assertModelMatches_some.mp hpass]
      exact h r hmem x hx

/-! ### Sequences of ingestions -/

/-- A call runs to its end, whether it returns or raises. -/
inductive Ingests : ChunkTable F dim → Call F → ChunkTable F dim → Prop
  | call {t} (c : Call F) : Ingests t c
      (final (ingestDocuments c.enc c.provider c.batchSize c.createdAt c.docs t))

/-- The documents that a call replaces, and its rows for them. -/
def replacedBy (dim : ℕ) (c : Call F) : List Text :=
  c.rows.toOption.elim [] fun rows => replaced dim rows c.docs

def writtenBy (dim : ℕ) (c : Call F) : List (ChunkRow F) :=
  c.rows.toOption.elim [] fun rows => (replaced dim rows c.docs).flatMap (own rows)

/-- The call writes nothing, or all rows that it does not replace have its model. -/
def OneModel (x : Step (ChunkTable F dim) (Call F)) : Prop :=
  writtenBy dim x.label = [] ∨ ∀ r ∈ x.before.rows.values, r.docId ∉ replacedBy dim x.label →
    r.embeddingModel = x.label.provider.modelName

/-- The rows behind a call are those that it has written and those of other documents. -/
structure Outcome (c : Call F) (t t' : ChunkTable F dim) : Prop where
  addressed : t'.Addressed
  origin : ∀ r ∈ t'.rows.values, (∃ r' ∈ writtenBy dim c, r.undated = r'.undated) ∨
    r ∈ t.rows.values ∧ r.docId ∉ replacedBy dim c
  written : ∀ r' ∈ writtenBy dim c, ∃ r ∈ t'.rows.values, r.undated = r'.undated
  kept : ∀ r ∈ t.rows.values, r.docId ∉ replacedBy dim c → r ∈ t'.rows.values

theorem Ingests.outcome {t t' : ChunkTable F dim} {c : Call F} (h : Ingests t c t')
    (ht : t.Addressed) : Outcome c t t' := by
  cases h
  cases hrows : c.rows with
  | error e =>
    have hfinal : final (ingestDocuments c.enc c.provider c.batchSize c.createdAt c.docs t) = t := by
      rw [Call.rows] at hrows
      rw [ingestDocuments_eq, hrows]
      rfl
    rw [hfinal]
    refine ⟨ht, fun r hr => .inr ⟨hr, ?_⟩, ?_, fun r hr _ => hr⟩
    · simp [replacedBy, hrows, Except.toOption]
    · simp [writtenBy, hrows, Except.toOption]
  | ok rows =>
    have hchunks : chunkRows c.enc c.provider c.batchSize c.createdAt c.docs = .ok rows := hrows
    have hin := ingestDocuments_ingested ht hchunks
    have hreplaced : replacedBy dim c = replaced dim rows c.docs := by
      rw [replacedBy, hrows]
      rfl
    have hwritten : writtenBy dim c = (replaced dim rows c.docs).flatMap (own rows) := by
      rw [writtenBy, hrows]
      rfl
    refine ⟨hin.addressed, ?_, ?_, ?_⟩
    · intro r hr
      obtain ⟨d, i, hcell⟩ := hin.addressed.mem_values_iff.mp hr
      by_cases hd : d ∈ replaced dim rows c.docs
      · rw [hin.written d hd i, Option.map_eq_some_iff] at hcell
        obtain ⟨r', hr', rfl⟩ := hcell
        refine .inl ⟨r', ?_, rfl⟩
        rw [hwritten, List.mem_flatMap]
        exact ⟨d, hd, List.mem_of_getElem? hr'⟩
      · rw [hin.others d hd i] at hcell
        refine .inr ⟨ht.mem_values_iff.mpr ⟨d, i, hcell⟩, ?_⟩
        rw [(ht.cell_eq_some hcell).1, hreplaced]
        exact hd
    · intro r' hr'
      rw [hwritten, List.mem_flatMap] at hr'
      obtain ⟨d, hd, hr'⟩ := hr'
      obtain ⟨i, hi⟩ := List.getElem?_of_mem hr'
      refine ⟨r'.kept (t.cell d i), hin.addressed.mem_values_iff.mpr ⟨d, i, ?_⟩, rfl⟩
      rw [hin.written d hd i, hi]
      rfl
    · intro r hr hd
      obtain ⟨d, i, hcell⟩ := ht.mem_values_iff.mp hr
      obtain ⟨rfl, -⟩ := ht.cell_eq_some hcell
      rw [hreplaced] at hd
      rw [← hin.others _ hd i] at hcell
      exact hin.addressed.mem_values_iff.mpr ⟨_, i, hcell⟩

theorem model_of_writtenBy {c : Call F} {r : ChunkRow F} (h : r ∈ writtenBy dim c) :
    r.embeddingModel = c.provider.modelName := by
  cases hrows : c.rows with
  | error e => simp [writtenBy, hrows, Except.toOption] at h
  | ok rows =>
    rw [writtenBy, hrows] at h
    obtain ⟨d, -, hr⟩ := List.mem_flatMap.mp h
    obtain ⟨blocks, hblocks, rfl⟩ := chunkRows_blocks hrows
    obtain ⟨rs, hrs, hmem⟩ := List.mem_flatten.mp (List.mem_filter.mp hr).1
    obtain ⟨doc, -, hdoc⟩ := exists_of_forall₂_right hblocks hrs
    exact (hdoc.stamped hmem).1

/-- A call keeps the stored rows to one model if and only if it finds no others. -/
theorem Outcome.uniform_iff {c : Call F} {t t' : ChunkTable F dim} (h : Outcome c t t')
    (ht : Uniform t) : Uniform t' ↔ OneModel ⟨t, c, t'⟩ := by
  constructor
  · intro ht'
    by_cases hnone : writtenBy dim c = []
    · exact .inl hnone
    · obtain ⟨r', hr'⟩ := List.exists_mem_of_ne_nil _ hnone
      obtain ⟨x, hx, hundated⟩ := h.written r' hr'
      refine .inr fun r hr hd => ?_
      rw [ht' r (h.kept r hr hd) x hx, ← model_of_writtenBy hr']
      exact (ChunkRow.of_undated hundated).2.2.2
  · rintro (hnone | hall)
    · have hold : ∀ r ∈ t'.rows.values, r ∈ t.rows.values := by
        intro r hr
        rcases h.origin r hr with ⟨r', hr', -⟩ | ⟨hr, -⟩
        · rw [hnone] at hr'
          cases hr'
        · exact hr
      exact fun r hr r' hr' => ht r (hold r hr) r' (hold r' hr')
    · have hmodel : ∀ r ∈ t'.rows.values, r.embeddingModel = c.provider.modelName := by
        intro r hr
        rcases h.origin r hr with ⟨r', hr', hundated⟩ | ⟨hr, hd⟩
        · rw [(ChunkRow.of_undated hundated).2.2.2, model_of_writtenBy hr']
        · exact hall r hr hd
      intro r hr r' hr'
      rw [hmodel r hr, hmodel r' hr']

/-- The check is sound in all states of a run if and only if every call of it finds only rows
of its own model, apart from those that it replaces. -/
theorem model_check_sound_iff {steps : List (Step (ChunkTable F dim) (Call F))}
    {t : ChunkTable F dim} (h : Run Ingests .empty steps t) :
    (Checked t ∧ ∀ x ∈ steps, Checked x.before) ↔ ∀ x ∈ steps, OneModel x := by
  have hmain : t.Addressed ∧ ((Uniform t ∧ ∀ x ∈ steps, Uniform x.before) ↔
      ∀ x ∈ steps, OneModel x) := by
    induction h with
    | nil =>
      have hempty : Uniform (ChunkTable.empty : ChunkTable F dim) := by
        intro r hr
        cases hr
      exact ⟨addressed_empty, by simp [hempty]⟩
    | @snoc steps t c u hrun hstep ih =>
      obtain ⟨ht, ih⟩ := ih
      have hout := hstep.outcome ht
      refine ⟨hout.addressed, ?_⟩
      simp only [List.forall_mem_append, List.forall_mem_singleton]
      constructor
      · rintro ⟨hu, hbefore, huniform⟩
        exact ⟨ih.mp ⟨huniform, hbefore⟩, (hout.uniform_iff huniform).mp hu⟩
      · rintro ⟨hall, hlast⟩
        obtain ⟨huniform, hbefore⟩ := ih.mpr hall
        exact ⟨(hout.uniform_iff huniform).mpr hlast, hbefore, huniform⟩
  simp only [checked_iff_uniform]
  exact hmain.2

/-! ### Two models in one table -/

def ingestWith (modelName docId : Text) : Call ℕ where
  enc := charTokenizer
  provider := { lengthProvider with modelName }
  batchSize := 64
  createdAt := 0
  docs := [⟨docId, "runbook".toList, "Rollback".toList, "use the flag".toList, false⟩]

def ingestedBy (c : Call ℕ) (t : ChunkTable ℕ 1) : ChunkTable ℕ 1 :=
  final (ingestDocuments c.enc c.provider c.batchSize c.createdAt c.docs t)

/-- Two documents are ingested with two models. -/
def mixedModels : ChunkTable ℕ 1 :=
  ingestedBy (ingestWith "n".toList "RB-2".toList)
    (ingestedBy (ingestWith "m".toList "RB-1".toList) .empty)

def mixedModelSteps : List (Step (ChunkTable ℕ 1) (Call ℕ)) :=
  let first := ingestWith "m".toList "RB-1".toList
  [⟨.empty, first, ingestedBy first .empty⟩,
    ⟨ingestedBy first .empty, ingestWith "n".toList "RB-2".toList, mixedModels⟩]

theorem mixedModelSteps_run : Run Ingests .empty mixedModelSteps mixedModels :=
  .snoc (.snoc .nil (.call _)) (.call _)

theorem model_check_sound_iff_mixed :
    (Checked mixedModels ∧ ∀ x ∈ mixedModelSteps, Checked x.before) ↔
      ∀ x ∈ mixedModelSteps, OneModel x :=
  model_check_sound_iff mixedModelSteps_run

/-- The row that is read has the model of the query, another one has not. -/
theorem mixed_models_pass_check :
    ¬ ∀ (steps : List (Step (ChunkTable ℕ 1) (Call ℕ))) t, Run Ingests .empty steps t → Checked t := by
  intro hall
  have huniform := checked_iff_uniform.mp (hall _ _ mixedModelSteps_run)
  have hmodels : mixedModels.rows.values.map ChunkRow.embeddingModel = ["m".toList, "n".toList] := rfl
  have hsame : ∀ m ∈ mixedModels.rows.values.map ChunkRow.embeddingModel,
      ∀ m' ∈ mixedModels.rows.values.map ChunkRow.embeddingModel, m = m' := by
    simp only [List.forall_mem_map]
    exact huniform
  rw [hmodels] at hsame
  exact absurd (hsame _ List.mem_cons_self _ (List.mem_cons_of_mem _ List.mem_cons_self)) (by decide)

end GroundedOps.Retrieval
