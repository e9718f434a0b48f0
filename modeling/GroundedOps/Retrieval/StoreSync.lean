import GroundedOps.Ingestion.Indexer
import GroundedOps.Library.Transition
import GroundedOps.Retrieval.StoreContents

/-!
# The two stores over whole runs

The chunk table is written by ingestions only, the files by builds only. A run mixes
both with restarts and with `ensure`, which decides from the files alone whether to
accept them.
-/

namespace GroundedOps.Retrieval

open Python Ingestion Program Transition

variable {F : Type} {dim : ℕ}

inductive Op (F : Type)
  | ingest (enc : Tokenizer) (provider : EmbeddingProvider F) (batchSize : ℕ) (createdAt : ℤ)
      (docs : List SourceDoc)
  | build (chunks : List (StoredChunk F)) (model : Text)
  | rebuild (loaded : List (StoredChunk F)) (model : Text)
  | restart (indexType : Text)
  | ensure (loaded : List (StoredChunk F)) (model : Text)

/-- `source` remembers the chunks of the last build. -/
structure World (F : Type) (dim : ℕ) where
  table : ChunkTable F dim
  process : Process F
  source : Option (List (StoredChunk F)) := none

namespace World

def start (table : ChunkTable F dim) (indexType : Text) : World F dim :=
  { table, process := { store := { dim, indexType } } }

/-- The world behind a build. -/
def afterBuild (w : World F dim) (chunks : List (StoredChunk F)) {α : Type} :
    EStateM.Result Exn (Process F) α → World F dim
  | .ok _ p => { w with process := p, source := some chunks }
  | .error _ p => { w with process := p }

end World

inductive Steps : World F dim → Op F → World F dim → Prop
  | ingest {w} (enc provider batchSize createdAt docs) :
      Steps w (.ingest enc provider batchSize createdAt docs)
        { w with table := final (ingestDocuments enc provider batchSize createdAt docs w.table) }
  | build {w} (chunks model) :
      Steps w (.build chunks model) (w.afterBuild chunks (build chunks model w.process))
  | rebuild {w loaded} (model) : LoadAll w.table loaded →
      Steps w (.rebuild loaded model) (w.afterBuild loaded (rebuildFromPg loaded model w.process))
  | restart {w} (indexType) :
      Steps w (.restart indexType)
        { w with process := { w.process with store := { dim, indexType } } }
  | ensure {w loaded} (model) : LoadAll w.table loaded →
      Steps w (.ensure loaded model)
        { w with
          process := final (ensure loaded model w.process)
          source := if reuses w.process model then w.source else some loaded }

/-- The store holds exactly the chunks of the table. -/
def Mirrors (table : ChunkTable F dim) (s : FaissStore F) : Prop :=
  ∃ chunks, LoadAll table chunks ∧ Holds s chunks

/-- If the step is an `ensure` that returns, the stores agree behind it. -/
def Synced (x : Step (World F dim) (Op F)) : Prop :=
  ∀ loaded model p, x.label = .ensure loaded model →
    ensure loaded model x.before.process = .ok () p → Mirrors x.after.table p.store

/-- If the step is an `ensure` that accepts the files, the chunks of the last build are
those of the table. -/
def Current (x : Step (World F dim) (Op F)) : Prop :=
  ∀ loaded model, x.label = .ensure loaded model → reuses x.before.process model = true →
    ∃ chunks, x.before.source = some chunks ∧ LoadAll x.before.table chunks

/-- The files are those of a store that holds the chunks of the last build. -/
structure Filed (w : World F dim) : Prop where
  storeDim : w.process.store.dim = dim
  files : match w.source with
    | none => w.process.disk = {}
    | some chunks => ∃ s, Holds s chunks ∧ Persisted w.process.disk s ∧ s.dim = dim

theorem filed_start (table : ChunkTable F dim) (indexType : Text) :
    Filed (World.start table indexType) := ⟨rfl, rfl⟩

theorem Filed.afterBuild {w : World F dim} (h : Filed w) (chunks : List (StoredChunk F))
    (model : Text) : Filed (w.afterBuild chunks (build chunks model w.process)) := by
  cases hindex : w.process.store.buildIndex chunks with
  | error e =>
    rw [build_error hindex]
    exact h
  | ok index =>
    obtain ⟨p', hbuild, hbuilt⟩ := build_ok hindex model
    rw [hbuild]
    have hdim : p'.store.dim = dim := hbuilt.dim.trans h.storeDim
    exact ⟨hdim, p'.store, hbuilt.holds, hbuilt.persisted, hdim⟩

theorem Filed.readable {w : World F dim} (h : Filed w) : Readable w.process := by
  have hfiles := h.files
  split at hfiles
  · exact .inl (by rw [hfiles])
  · obtain ⟨s, -, ⟨⟨index, -, hindex⟩, hmap⟩, -⟩ := hfiles
    exact .inr (.inr ⟨s.sidecar, hmap, fun _ => ⟨index, hindex⟩⟩)

/-- Accepted files give back the chunks of the last build. -/
theorem Filed.accept {w : World F dim} (h : Filed w) {model : Text} {index : Index F}
    {sidecar : Sidecar} (hreuses : Reuses w.process model index sidecar) :
    ∃ chunks, w.source = some chunks ∧ Holds (w.process.store.accept index sidecar) chunks := by
  obtain ⟨hindex, hmap, -, -⟩ := hreuses
  have hfiles := h.files
  split at hfiles
  · rw [hfiles] at hindex
    cases hindex
  · next chunks hsource =>
    obtain ⟨s, hs, hpersisted, -⟩ := hfiles
    exact ⟨chunks, hsource, hpersisted.accept_holds hs hindex hmap⟩

/-- What an `ensure` in a run comes to. -/
theorem Filed.ensure_cases {w : World F dim} (h : Filed w) {loaded : List (StoredChunk F)}
    (hloaded : LoadAll w.table loaded) (model : Text) :
    (reuses w.process model = true ∧ ∃ p chunks, ensure loaded model w.process = .ok () p ∧
      p.disk = w.process.disk ∧ p.store.dim = dim ∧ w.source = some chunks ∧
        Holds p.store chunks) ∨
    (reuses w.process model = false ∧ ∃ p, ensure loaded model w.process = .ok () p ∧
      Built w.process p loaded model) := by
  cases hreuses : reuses w.process model with
  | true =>
    obtain ⟨index, sidecar, hfiles⟩ := reuses_iff.mp hreuses
    obtain ⟨chunks, hsource, hholds⟩ := h.accept hfiles
    exact .inl ⟨rfl, _, chunks, ensure_reuses hfiles, rfl, h.storeDim, hsource, hholds⟩
  | false =>
    have hstale : ∀ index sidecar, ¬ Reuses w.process model index sidecar := by
      intro index sidecar hfiles
      rw [reuses_iff.mpr ⟨index, sidecar, hfiles⟩] at hreuses
      cases hreuses
    exact .inr ⟨rfl, ensure_rebuilds h.readable hstale (h.storeDim.symm ▸ hloaded.sized)⟩

theorem Filed.step {w w' : World F dim} {op : Op F} (h : Filed w) (hstep : Steps w op w') :
    Filed w' := by
  cases hstep with
  | ingest => exact ⟨h.storeDim, h.files⟩
  | build chunks model => exact h.afterBuild chunks model
  | rebuild model _ => exact h.afterBuild _ model
  | restart indexType => exact ⟨rfl, h.files⟩
  | ensure model hloaded =>
    rcases h.ensure_cases hloaded model with
      ⟨hreuses, p, chunks, hensure, hdisk, hdim, hsource, -⟩ | ⟨hreuses, p, hensure, hbuilt⟩
    · have hfiles := h.files
      rw [hsource] at hfiles
      refine ⟨by simpa [hensure, final] using hdim, ?_⟩
      simpa [hensure, final, hreuses, hsource, hdisk] using hfiles
    · have hdim : p.store.dim = dim := hbuilt.dim.trans h.storeDim
      refine ⟨by simpa [hensure, final] using hdim, ?_⟩
      simpa [hensure, final, hreuses] using ⟨p.store, hbuilt.holds, hbuilt.persisted, hdim⟩

theorem Filed.synced_iff {w w' : World F dim} {op : Op F} (h : Filed w)
    (hstep : Steps w op w') : Synced ⟨w, op, w'⟩ ↔ Current ⟨w, op, w'⟩ := by
  cases hstep with
  | ensure model hloaded =>
    rename_i loaded
    constructor
    · intro hsynced loaded' model' hlabel hreuses
      obtain ⟨rfl, rfl⟩ : loaded = loaded' ∧ model = model' := by simpa using hlabel
      rcases h.ensure_cases hloaded model with
        ⟨-, p, chunks, hensure, -, -, hsource, hholds⟩ | ⟨hno, -⟩
      · obtain ⟨held, hheld, hstore⟩ := hsynced loaded model p rfl hensure
        obtain rfl := hstore.unique hholds hheld.nodup
        exact ⟨held, hsource, hheld⟩
      · exact absurd (hreuses.symm.trans hno) (by decide)
    · intro hcurrent loaded' model' p' hlabel hreturns
      obtain ⟨rfl, rfl⟩ : loaded = loaded' ∧ model = model' := by simpa using hlabel
      rcases h.ensure_cases hloaded model with
        ⟨hreuses, p, chunks, hensure, -, -, hsource, hholds⟩ | ⟨-, p, hensure, hbuilt⟩
      · obtain rfl : p = p' := by simpa [hensure] using hreturns
        obtain ⟨held, hheld, hmirror⟩ := hcurrent loaded model rfl hreuses
        obtain rfl : chunks = held := by simpa [hsource] using hheld
        exact ⟨chunks, hmirror, hholds⟩
      · obtain rfl : p = p' := by simpa [hensure] using hreturns
        exact ⟨loaded, hloaded, hbuilt.holds⟩
  | ingest => exact iff_of_true (by simp [Synced]) (by simp [Current])
  | build chunks model => exact iff_of_true (by simp [Synced]) (by simp [Current])
  | rebuild model _ => exact iff_of_true (by simp [Synced]) (by simp [Current])
  | restart indexType => exact iff_of_true (by simp [Synced]) (by simp [Current])

/-- In every run, all returning calls of `ensure` leave the stores in agreement if and
only if none of them accepts files that were built from other chunks than those of the
table. -/
theorem stores_synced_iff {table : ChunkTable F dim} {indexType : Text}
    {steps : List (Step (World F dim) (Op F))} {w : World F dim}
    (h : Run Steps (World.start table indexType) steps w) :
    (∀ x ∈ steps, Synced x) ↔ ∀ x ∈ steps, Current x := by
  have hstep : ∀ x ∈ steps, (Synced x ↔ Current x) := fun x hx =>
    Filed.synced_iff (h.before (fun _ _ _ hfiled hs => hfiled.step hs)
      (filed_start table indexType) hx) (h.step_of_mem hx)
  exact forall₂_congr hstep

section Stale

def runbook (text : Text) : SourceDoc :=
  ⟨"RB-1".toList, "runbook".toList, "Rollback".toList, text, false⟩

def held (w : World ℕ 1) : List (StoredChunk ℕ) := w.table.rows.values.map StoredChunk.ofRow

def ingested (text : Text) (w : World ℕ 1) : World ℕ 1 :=
  { w with table := final (ingestDocuments charTokenizer lengthProvider 64 0 [runbook text] w.table) }

def ensured (w : World ℕ 1) : World ℕ 1 :=
  { w with
    process := final (ensure (held w) "m".toList w.process)
    source := if reuses w.process "m".toList then w.source else some (held w) }

/-- The world in which a document was ingested, indexed and then changed. -/
def staleWorld : World ℕ 1 :=
  ingested "use the new flag".toList
    (ensured (ingested "use the old flag".toList (World.start .empty "flat".toList)))

def staleSteps : List (Step (World ℕ 1) (Op ℕ)) :=
  let op text := Op.ingest charTokenizer lengthProvider 64 0 [runbook text]
  let w₀ := World.start .empty "flat".toList
  let w₁ := ingested "use the old flag".toList w₀
  let w₂ := ensured w₁
  [⟨w₀, op "use the old flag".toList, w₁⟩, ⟨w₁, .ensure (held w₁) "m".toList, w₂⟩,
    ⟨w₂, op "use the new flag".toList, staleWorld⟩,
    ⟨staleWorld, .ensure (held staleWorld) "m".toList, ensured staleWorld⟩]

theorem staleSteps_run :
    Run Steps (World.start .empty "flat".toList) staleSteps (ensured staleWorld) := by
  have hensured : ∀ w : World ℕ 1, Steps w (.ensure (held w) "m".toList) (ensured w) :=
    fun w => .ensure "m".toList (List.Perm.refl _)
  have hingested : ∀ w text, Steps w (.ingest charTokenizer lengthProvider 64 0 [runbook text])
      (ingested text w) := fun w text => .ingest ..
  exact .snoc (.snoc (.snoc (.snoc .nil (hingested _ _)) (hensured _)) (hingested _ _)) (hensured _)

theorem stores_synced_iff_stale :
    (∀ x ∈ staleSteps, Synced x) ↔ ∀ x ∈ staleSteps, Current x :=
  stores_synced_iff staleSteps_run

/-- An ingestion that changes a document leaves the files as they are, and the next
`ensure` accepts them. -/
theorem stale_files_accepted :
    ∃ steps w, Run Steps (World.start (ChunkTable.empty : ChunkTable ℕ 1) "flat".toList) steps w ∧
      ¬ ∀ x ∈ steps, Synced x := by
  refine ⟨staleSteps, _, staleSteps_run, fun hsynced => ?_⟩
  have hlast : ⟨staleWorld, .ensure (held staleWorld) "m".toList, ensured staleWorld⟩ ∈
      staleSteps := by simp [staleSteps]
  have hfiled : Filed staleWorld :=
    staleSteps_run.before (fun _ _ _ hfiled hs => hfiled.step hs) (filed_start _ _) hlast
  have hstep : Steps staleWorld (.ensure (held staleWorld) "m".toList) (ensured staleWorld) :=
    .ensure "m".toList (List.Perm.refl _)
  obtain ⟨chunks, hsource, hload⟩ :=
    (hfiled.synced_iff hstep).mp (hsynced _ hlast) _ _ rfl (by decide +kernel)
  have hold : ∀ chunks ∈ staleWorld.source, ¬ chunks.Perm (held staleWorld) := by decide +kernel
  exact hold chunks hsource hload

end Stale

end GroundedOps.Retrieval
