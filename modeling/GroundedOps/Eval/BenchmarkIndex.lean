import GroundedOps.Ingestion.Indexer
import GroundedOps.Library.Transition
import GroundedOps.Retrieval.StoreContents

/-!
# The index of the benchmark

Every evaluation opens the files of its own index, and `ensure` decides from their stamp
whether they are accepted. The stamp is the name of the language model, not that of the
embedding model. Between evaluations the corpus is ingested again under another embedding
model, or another language model is configured.
-/

namespace GroundedOps.Eval

open Python Ingestion Retrieval Program Transition

variable {F : Type} {dim : ℕ}

/-- The store that `_benchmark` searches besides the canonical one. -/
def benchmarkStore (loaded : List (StoredChunk F)) (model : Text) : StoreM F (FaissStore F) := do
  ensure loaded model
  let p ← get
  return p.store

/-- What was configured when the files were last built, and the rows they were built from. -/
structure BuildRecord (F : Type) where
  rows : List (ChunkRow F)
  embeddingModel : Text
  llm : Text

/-- `built` only remembers. -/
structure EvalWorld (F : Type) (dim : ℕ) where
  table : ChunkTable F dim
  embeddingModel : Text
  llm : Text
  disk : Disk F := {}
  built : Option (BuildRecord F) := none

namespace EvalWorld

def start (embeddingModel llm : Text) : EvalWorld F dim := { table := .empty, embeddingModel, llm }

/-- The fresh store of an evaluation, over the files of the previous one. -/
def process (w : EvalWorld F dim) : Process F :=
  { store := { dim, indexType := "flat".toList }, disk := w.disk }

/-- `run_eval` hands the name of its language model to the benchmark. -/
def evalStore (w : EvalWorld F dim) (rows : List (ChunkRow F)) :
    EStateM.Result Exn (Process F) (FaissStore F) :=
  benchmarkStore (rows.map StoredChunk.ofRow) w.llm w.process

end EvalWorld

inductive EvalOp (F : Type)
  | reingest (enc : Tokenizer) (provider : EmbeddingProvider F) (batchSize : ℕ) (createdAt : ℤ)
      (docs : List SourceDoc)
  | configureLlm (name : Text)
  | eval (rows : List (ChunkRow F))

/-- A full ingestion leaves no row of another embedding model. -/
inductive EvalSteps : EvalWorld F dim → EvalOp F → EvalWorld F dim → Prop
  | reingest {w : EvalWorld F dim} {enc provider batchSize createdAt docs stats table} :
      ingestDocuments enc provider batchSize createdAt docs w.table = .ok stats table →
      (∀ r ∈ table.rows.values, r.embeddingModel = provider.modelName) →
      EvalSteps w (.reingest enc provider batchSize createdAt docs)
        { w with table, embeddingModel := provider.modelName }
  | configureLlm {w : EvalWorld F dim} (name) :
      EvalSteps w (.configureLlm name) { w with llm := name }
  | eval {w : EvalWorld F dim} {rows} : rows.Perm w.table.rows.values →
      EvalSteps w (.eval rows)
        { w with
          disk := (final (w.evalStore rows)).disk
          built := if reuses w.process w.llm then w.built
            else some ⟨rows, w.embeddingModel, w.llm⟩ }

/-- If the step is an evaluation, the store it searches holds the vectors of the rows it was last
built from, all of them of the active embedding model, and it was reused if and only if the
active model produced the vectors of the files. -/
def SameEmbeddings (x : Step (EvalWorld F dim) (EvalOp F)) : Prop :=
  ∀ rows, x.label = .eval rows → ∀ store p, x.before.evalStore rows = .ok store p →
    (∃ b, x.after.built = some b ∧ Holds store (b.rows.map StoredChunk.ofRow) ∧
      ∀ r ∈ b.rows, r.embeddingModel = x.before.embeddingModel) ∧
    (reuses x.before.process x.before.llm = true ↔
      ∃ b, x.before.built = some b ∧ b.embeddingModel = x.before.embeddingModel)

/-- If the step is an evaluation, the language model is that of the last build if and only if the
embedding model is. -/
def ModelsAgree (x : Step (EvalWorld F dim) (EvalOp F)) : Prop :=
  ∀ rows, x.label = .eval rows → ∀ b, x.before.built = some b →
    (b.llm = x.before.llm ↔ b.embeddingModel = x.before.embeddingModel)

/-! ### The invariant -/

/-- The rows have the active embedding model, and the files are those of the last build. -/
structure Stamped (w : EvalWorld F dim) : Prop where
  rows : ∀ r ∈ w.table.rows.values, r.embeddingModel = w.embeddingModel
  files : match w.built with
    | none => w.disk = {}
    | some b => (∀ r ∈ b.rows, r.embeddingModel = b.embeddingModel) ∧
      ∃ s, Holds s (b.rows.map StoredChunk.ofRow) ∧ Persisted w.disk s ∧ s.dim = dim ∧
        s.embeddingModel = some b.llm

theorem stamped_start (embeddingModel llm : Text) :
    Stamped (EvalWorld.start embeddingModel llm : EvalWorld F dim) :=
  ⟨fun _ h => absurd h List.not_mem_nil, rfl⟩

theorem loadAll_of_perm {table : ChunkTable F dim} {rows : List (ChunkRow F)}
    (h : rows.Perm table.rows.values) : LoadAll table (rows.map StoredChunk.ofRow) :=
  h.map StoredChunk.ofRow

theorem evalStore_eq_ok {w : EvalWorld F dim} {rows : List (ChunkRow F)} {p : Process F}
    (h : ensure (rows.map StoredChunk.ofRow) w.llm w.process = .ok () p) :
    w.evalStore rows = .ok p.store p := by
  rw [EvalWorld.evalStore, benchmarkStore, run_bind_ok h]
  rfl

theorem Stamped.readable {w : EvalWorld F dim} (h : Stamped w) : Readable w.process := by
  have hfiles := h.files
  split at hfiles
  · exact .inl (by rw [EvalWorld.process, hfiles])
  · obtain ⟨-, s, -, ⟨⟨index, -, hindex⟩, hmap⟩, -⟩ := hfiles
    exact .inr (.inr ⟨s.sidecar, hmap, fun _ => ⟨index, hindex⟩⟩)

/-- The stamp of the files is the language model of the last build. -/
theorem Stamped.reuses_iff {w : EvalWorld F dim} (h : Stamped w) :
    reuses w.process w.llm = true ↔ ∃ b, w.built = some b ∧ b.llm = w.llm := by
  rw [Retrieval.reuses_iff]
  have hfiles := h.files
  split at hfiles
  · next hnone =>
    refine iff_of_false ?_ (by simp [hnone])
    rintro ⟨index, sidecar, hindex, -⟩
    rw [EvalWorld.process, hfiles] at hindex
    cases hindex
  · next b hsome =>
    obtain ⟨-, s, -, ⟨⟨index, -, hindex⟩, hmap⟩, hdim, hstamp⟩ := hfiles
    rw [hsome]
    constructor
    · rintro ⟨index', sidecar, -, hmap', -, hmodel⟩
      obtain rfl : sidecar = s.sidecar := by
        have hsame := hmap'.symm.trans hmap
        cases hsame
        rfl
      refine ⟨b, rfl, ?_⟩
      exact Option.some.inj (hstamp.symm.trans hmodel)
    · rintro ⟨b', hb, hllm⟩
      cases hb
      exact ⟨index, s.sidecar, hindex, hmap, hdim, by rw [← hllm]; exact hstamp⟩

/-- What an evaluation in a run comes to. -/
theorem Stamped.eval_cases {w : EvalWorld F dim} (h : Stamped w) {rows : List (ChunkRow F)}
    (hrows : rows.Perm w.table.rows.values) :
    (reuses w.process w.llm = true ∧ ∃ p b, w.evalStore rows = .ok p.store p ∧ p.disk = w.disk ∧
      w.built = some b ∧ Holds p.store (b.rows.map StoredChunk.ofRow)) ∨
    (reuses w.process w.llm = false ∧ ∃ p, w.evalStore rows = .ok p.store p ∧
      Built w.process p (rows.map StoredChunk.ofRow) w.llm) := by
  cases hreuses : reuses w.process w.llm with
  | true =>
    obtain ⟨index, sidecar, haccepts⟩ := Retrieval.reuses_iff.mp hreuses
    obtain ⟨b, hb, -⟩ := h.reuses_iff.mp hreuses
    have hfiles := h.files
    rw [hb] at hfiles
    obtain ⟨-, s, hs, hpersisted, -⟩ := hfiles
    refine .inl ⟨rfl, _, b, evalStore_eq_ok (ensure_reuses haccepts), rfl, hb, ?_⟩
    exact hpersisted.accept_holds hs haccepts.1 haccepts.2.1
  | false =>
    have hstale : ∀ index sidecar, ¬ Reuses w.process w.llm index sidecar := by
      intro index sidecar hfiles
      rw [Retrieval.reuses_iff.mpr ⟨index, sidecar, hfiles⟩] at hreuses
      cases hreuses
    obtain ⟨p, hensure, hbuilt⟩ :=
      ensure_rebuilds h.readable hstale (loadAll_of_perm hrows).sized
    exact .inr ⟨rfl, p, evalStore_eq_ok hensure, hbuilt⟩

theorem Stamped.step {w w' : EvalWorld F dim} {op : EvalOp F} (h : Stamped w)
    (hstep : EvalSteps w op w') : Stamped w' := by
  cases hstep with
  | reingest _ hrows => exact ⟨hrows, h.files⟩
  | configureLlm name => exact ⟨h.rows, h.files⟩
  | @eval rows hperm =>
    refine ⟨h.rows, ?_⟩
    rcases h.eval_cases hperm with
      ⟨hreuses, p, b, heval, hdisk, hb, -⟩ | ⟨hreuses, p, heval, hbuilt⟩
    · have hfiles := h.files
      rw [hb] at hfiles
      simpa [heval, final, hreuses, hb, hdisk] using hfiles
    · have hmodels : ∀ r ∈ rows, r.embeddingModel = w.embeddingModel :=
        fun r hr => h.rows r (hperm.subset hr)
      simpa [heval, final, hreuses] using
        ⟨hmodels, p.store, hbuilt.holds, hbuilt.persisted, hbuilt.dim, hbuilt.embeddingModel⟩

/-- The record of the last build has the models of its rows. -/
theorem Stamped.rows_of_built {w : EvalWorld F dim} (h : Stamped w) {b : BuildRecord F}
    (hb : w.built = some b) : ∀ r ∈ b.rows, r.embeddingModel = b.embeddingModel := by
  have hfiles := h.files
  rw [hb] at hfiles
  exact hfiles.1

theorem Stamped.sameEmbeddings_iff {w w' : EvalWorld F dim} {op : EvalOp F} (h : Stamped w)
    (hstep : EvalSteps w op w') : SameEmbeddings ⟨w, op, w'⟩ ↔ ModelsAgree ⟨w, op, w'⟩ := by
  cases hstep with
  | reingest => exact iff_of_true (by simp [SameEmbeddings]) (by simp [ModelsAgree])
  | configureLlm => exact iff_of_true (by simp [SameEmbeddings]) (by simp [ModelsAgree])
  | @eval rows hperm =>
    constructor
    · intro hsame rows' hlabel b hb
      cases hlabel
      have hreused : reuses w.process w.llm = true ↔
          ∃ b, w.built = some b ∧ b.embeddingModel = w.embeddingModel := by
        rcases h.eval_cases hperm with ⟨-, p, _, heval, -⟩ | ⟨-, p, heval, -⟩
        · exact (hsame rows rfl _ _ heval).2
        · exact (hsame rows rfl _ _ heval).2
      rw [h.reuses_iff, hb] at hreused
      simpa using hreused
    · intro hagree rows' hlabel store p heval
      cases hlabel
      have hreused : reuses w.process w.llm = true ↔
          ∃ b, w.built = some b ∧ b.embeddingModel = w.embeddingModel := by
        rw [h.reuses_iff]
        exact exists_congr fun b => and_congr_right fun hb => hagree rows rfl b hb
      refine ⟨?_, hreused⟩
      rcases h.eval_cases hperm with
        ⟨hreuses, p', b, heval', -, hb, hholds⟩ | ⟨hreuses, p', heval', hbuilt⟩
      · cases heval.symm.trans heval'
        obtain ⟨b', hb', hmodel⟩ := hreused.mp hreuses
        cases hb.symm.trans hb'
        refine ⟨b, ?_, hholds, fun r hr => (h.rows_of_built hb r hr).trans hmodel⟩
        dsimp only
        rw [if_pos hreuses, hb]
      · cases heval.symm.trans heval'
        refine ⟨⟨rows, w.embeddingModel, w.llm⟩, ?_, hbuilt.holds,
          fun r hr => h.rows r (hperm.subset hr)⟩
        dsimp only
        rw [hreuses]
        rfl

/-- In every history, all evaluations compare the stores on the same embeddings if and only if
at each of them the language model is that of the last build exactly when the embedding model
is. -/
theorem same_embeddings_iff {embeddingModel llm : Text}
    {steps : List (Step (EvalWorld F dim) (EvalOp F))} {w : EvalWorld F dim}
    (h : Run EvalSteps (EvalWorld.start embeddingModel llm) steps w) :
    (∀ x ∈ steps, SameEmbeddings x) ↔ ∀ x ∈ steps, ModelsAgree x := by
  have hstep : ∀ x ∈ steps, (SameEmbeddings x ↔ ModelsAgree x) := fun x hx =>
    Stamped.sameEmbeddings_iff (h.before (fun _ _ _ hstamped hs => hstamped.step hs)
      (stamped_start embeddingModel llm) hx) (h.step_of_mem hx)
  exact forall₂_congr hstep

/-! ### An index of the old embedding model -/

section TwoModels

/-- Two embedding models of one dimension. -/
def oldModel : EmbeddingProvider ℕ := { lengthProvider with modelName := "old".toList }

def newModel : EmbeddingProvider ℕ where
  modelName := "new".toList
  embedDocuments texts := .ok (texts.map fun t => [t.length + 1])

def evalDocs : List SourceDoc :=
  [⟨"RB-1".toList, "runbook".toList, "Rollback".toList, "use the flag".toList, false⟩]

def reingested (provider : EmbeddingProvider ℕ) (w : EvalWorld ℕ 1) : EvalWorld ℕ 1 :=
  { w with
    table := final (ingestDocuments charTokenizer provider 64 0 evalDocs w.table)
    embeddingModel := provider.modelName }

def evaluated (w : EvalWorld ℕ 1) : EvalWorld ℕ 1 :=
  { w with
    disk := (final (w.evalStore w.table.rows.values)).disk
    built := if reuses w.process w.llm then w.built
      else some ⟨w.table.rows.values, w.embeddingModel, w.llm⟩ }

def returns {ε σ α : Type} : EStateM.Result ε σ α → Bool
  | .ok _ _ => true
  | .error _ _ => false

theorem reingested_step {provider : EmbeddingProvider ℕ} {w : EvalWorld ℕ 1}
    (hreturns : returns (ingestDocuments charTokenizer provider 64 0 evalDocs w.table) = true)
    (hrows : ∀ r ∈ (reingested provider w).table.rows.values,
      r.embeddingModel = provider.modelName) :
    EvalSteps w (.reingest charTokenizer provider 64 0 evalDocs) (reingested provider w) := by
  cases hresult : ingestDocuments charTokenizer provider 64 0 evalDocs w.table with
  | error e t =>
    rw [hresult] at hreturns
    cases hreturns
  | ok stats table =>
    have htable : (reingested provider w).table = table := by
      rw [reingested, hresult]
      rfl
    have hworld : reingested provider w =
        { w with table, embeddingModel := provider.modelName } := by
      rw [reingested, hresult]
      rfl
    rw [hworld]
    exact .reingest hresult (htable ▸ hrows)

def freshWorld : EvalWorld ℕ 1 := .start "old".toList "llm".toList

/-- The world in which the corpus was evaluated under one embedding model and ingested again
under the other. -/
def reembeddedWorld : EvalWorld ℕ 1 :=
  reingested newModel (evaluated (reingested oldModel freshWorld))

def reembeddedSteps : List (Step (EvalWorld ℕ 1) (EvalOp ℕ)) :=
  let op provider := EvalOp.reingest charTokenizer provider 64 0 evalDocs
  let eval (w : EvalWorld ℕ 1) := EvalOp.eval w.table.rows.values
  let w₁ := reingested oldModel freshWorld
  [⟨freshWorld, op oldModel, w₁⟩, ⟨w₁, eval w₁, evaluated w₁⟩,
    ⟨evaluated w₁, op newModel, reembeddedWorld⟩,
    ⟨reembeddedWorld, eval reembeddedWorld, evaluated reembeddedWorld⟩]

theorem reembeddedSteps_run :
    Run EvalSteps freshWorld reembeddedSteps (evaluated reembeddedWorld) := by
  have heval : ∀ w : EvalWorld ℕ 1, EvalSteps w (.eval w.table.rows.values) (evaluated w) :=
    fun w => .eval (List.Perm.refl _)
  have hold : EvalSteps freshWorld (.reingest charTokenizer oldModel 64 0 evalDocs)
      (reingested oldModel freshWorld) :=
    reingested_step (by decide +kernel) (by decide +kernel)
  have hnew : EvalSteps (evaluated (reingested oldModel freshWorld))
      (.reingest charTokenizer newModel 64 0 evalDocs) reembeddedWorld :=
    reingested_step (by decide +kernel) (by decide +kernel)
  exact .snoc (.snoc (.snoc (.snoc .nil hold) (heval _)) hnew) (heval _)

theorem same_embeddings_iff_reembedded :
    (∀ x ∈ reembeddedSteps, SameEmbeddings x) ↔ ∀ x ∈ reembeddedSteps, ModelsAgree x :=
  same_embeddings_iff reembeddedSteps_run

/-- The evaluation under the new model accepts the index of the old one. -/
theorem old_index_reused :
    ∃ steps w, Run EvalSteps (EvalWorld.start "old".toList "llm".toList : EvalWorld ℕ 1) steps w ∧
      ¬ ∀ x ∈ steps, SameEmbeddings x := by
  refine ⟨reembeddedSteps, _, reembeddedSteps_run, fun hsame => ?_⟩
  have hlast : ⟨reembeddedWorld, .eval reembeddedWorld.table.rows.values,
      evaluated reembeddedWorld⟩ ∈ reembeddedSteps := by simp [reembeddedSteps]
  have hstamped : Stamped reembeddedWorld :=
    reembeddedSteps_run.before (fun _ _ _ hs hstep => hs.step hstep) (stamped_start _ _) hlast
  have hagree := (hstamped.sameEmbeddings_iff (.eval (List.Perm.refl _))).mp (hsame _ hlast)
  have hbuilt : reembeddedWorld.built.map (fun b => (b.llm, b.embeddingModel)) =
      some ("llm".toList, "old".toList) := by decide +kernel
  obtain ⟨b, hb, hnames⟩ := Option.map_eq_some_iff.mp hbuilt
  obtain ⟨hllm, hold⟩ := Prod.mk.inj hnames
  have hnew : b.embeddingModel = "new".toList := (hagree _ rfl b hb).mp hllm
  rw [hold] at hnew
  exact absurd hnew (by decide)

end TwoModels

end GroundedOps.Eval
