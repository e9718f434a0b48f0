import GroundedOps.Library.Program
import GroundedOps.Retrieval.FaissStore

/-!
# What a store holds

A built store holds a list of chunks: their vectors, their ids and their metadata in one
order. Each operation on the store and its files has one specification lemma.
-/

namespace GroundedOps.Retrieval

open Python Ingestion Program

variable {F : Type}

structure Holds (s : FaissStore F) (chunks : List (StoredChunk F)) : Prop where
  vectors : s.index.map Index.vectors = some (chunks.map StoredChunk.embedding)
  idMap : s.idMap = chunks.map StoredChunk.chunkId
  metadata : s.metadata = Dict.ofList (chunks.map fun c => (c.chunkId, c.metadata))

/-- All vectors have the dimension of the store. -/
def Sized (dim : ℕ) (chunks : List (StoredChunk F)) : Prop :=
  ∀ c ∈ chunks, c.embedding.length = dim

theorem LoadAll.nodup {dim : ℕ} {table : ChunkTable F dim} {chunks : List (StoredChunk F)}
    (h : LoadAll table chunks) : (chunks.map StoredChunk.chunkId).Nodup := by
  have hids : (table.rows.values.map StoredChunk.ofRow).map StoredChunk.chunkId =
      table.rows.keys := by
    simp only [Dict.values, Dict.keys, List.map_map]
    exact List.map_congr_left fun p hp => table.keyed p hp
  rw [(h.map StoredChunk.chunkId).nodup_iff, hids]
  exact table.rows.nodup_keys

theorem LoadAll.sized {dim : ℕ} {table : ChunkTable F dim} {chunks : List (StoredChunk F)}
    (h : LoadAll table chunks) : Sized dim chunks := by
  intro c hc
  obtain ⟨r, hr, rfl⟩ := List.mem_map.mp (h.mem_iff.mp hc)
  obtain ⟨p, hp, rfl⟩ := List.mem_map.mp hr
  exact table.sized p hp

/-- The vector at every position is that of the chunk the id map names there, and the
metadata are its own. -/
structure Aligned (s : FaissStore F) (chunks : List (StoredChunk F)) : Prop where
  length : s.index.map (fun index => index.vectors.length) = some s.idMap.length
  entry : ∀ (i : ℕ) (c : StoredChunk F), chunks[i]? = some c →
    s.index.bind (fun index => index.vectors[i]?) = some c.embedding ∧
      s.idMap[i]? = some c.chunkId ∧ s.metadata.get? c.chunkId = some c.metadata
  complete : s.idMap.length = chunks.length

section Contents

variable {s : FaissStore F} {chunks : List (StoredChunk F)}

theorem Holds.exists_index (h : Holds s chunks) :
    ∃ index, s.index = some index ∧ index.vectors = chunks.map StoredChunk.embedding := by
  simpa using h.vectors

theorem Holds.get? (h : Holds s chunks) (hnodup : (chunks.map StoredChunk.chunkId).Nodup)
    {c : StoredChunk F} (hc : c ∈ chunks) : s.metadata.get? c.chunkId = some c.metadata := by
  have hkeys : ((chunks.map fun c => (c.chunkId, c.metadata)).map Prod.fst).Nodup := by
    simpa [List.map_map, Function.comp_def] using hnodup
  rw [h.metadata, Dict.get?_eq_some, Dict.items_ofList hkeys]
  exact List.mem_map.mpr ⟨c, hc, rfl⟩

theorem Holds.aligned (h : Holds s chunks) (hnodup : (chunks.map StoredChunk.chunkId).Nodup) :
    Aligned s chunks where
  length := by
    obtain ⟨index, hindex, hvectors⟩ := h.exists_index
    simp [hindex, hvectors, h.idMap]
  entry i c hc := by
    obtain ⟨index, hindex, hvectors⟩ := h.exists_index
    refine ⟨by simp [hindex, hvectors, hc], by simp [h.idMap, hc], ?_⟩
    exact h.get? hnodup (List.mem_of_getElem? hc)
  complete := by simp [h.idMap]

/-- A store holds at most one list of chunks with distinct ids. -/
theorem Holds.unique {other : List (StoredChunk F)} (h : Holds s chunks) (h' : Holds s other)
    (hnodup : (chunks.map StoredChunk.chunkId).Nodup) : chunks = other := by
  have hids : chunks.map StoredChunk.chunkId = other.map StoredChunk.chunkId := by
    rw [← h.idMap, ← h'.idMap]
  have hvectors : chunks.map StoredChunk.embedding = other.map StoredChunk.embedding := by
    simpa [h.vectors] using h'.vectors
  have hlength : chunks.length = other.length := by simpa using congrArg List.length hids
  refine List.ext_getElem hlength fun i hi hi' => ?_
  have hid : chunks[i].chunkId = other[i].chunkId := by
    have := congrArg (·[i]?) hids
    simpa [hi, hi'] using this
  have hvector : chunks[i].embedding = other[i].embedding := by
    have := congrArg (·[i]?) hvectors
    simpa [hi, hi'] using this
  have hmeta := h.get? hnodup (List.getElem_mem hi)
  have hmeta' := h'.get? (hids ▸ hnodup) (List.getElem_mem hi')
  rw [hid, hmeta', Option.some_inj] at hmeta
  cases hc : chunks[i]
  cases ho : other[i]
  simp_all

end Contents

/-! ### Building -/

section Building

variable {s : FaissStore F} {chunks : List (StoredChunk F)} {index : Index F} {model : Text}

theorem buildIndex_vectors (h : s.buildIndex chunks = .ok index) :
    index.vectors = chunks.map StoredChunk.embedding := by
  unfold FaissStore.buildIndex at h
  split at h
  · next hempty =>
    obtain rfl : chunks = [] := by simpa using hempty
    cases h
    rfl
  · unfold FaissStore.asarray at h
    split at h
    · rw [ok_bind, FaissStore.buildSync] at h
      split at h
      · cases h
        rfl
      · cases h
    · cases h

theorem buildIndex_ok (h : Sized s.dim chunks) : ∃ index, s.buildIndex chunks = .ok index := by
  unfold FaissStore.buildIndex
  split
  · exact ⟨_, rfl⟩
  · have hrows : ∀ r ∈ chunks.map StoredChunk.embedding, r.length = s.dim := by
      intro r hr
      obtain ⟨c, hc, rfl⟩ := List.mem_map.mp hr
      exact h c hc
    have harray : FaissStore.asarray (chunks.map StoredChunk.embedding) =
        .ok (chunks.map StoredChunk.embedding) :=
      if_pos fun r hr q hq => (hrows r hr).trans (hrows q hq).symm
    rw [harray, ok_bind, FaissStore.buildSync, if_pos hrows]
    exact ⟨_, rfl⟩

theorem publish_holds (h : s.buildIndex chunks = .ok index) :
    Holds (s.publish index chunks model) chunks :=
  ⟨by simp [FaissStore.publish, buildIndex_vectors h], rfl, rfl⟩

/-- The two files hold what the store holds. -/
structure Persisted (d : Disk F) (s : FaissStore F) : Prop where
  index : ∃ index, s.index = some index ∧ d.index = some (.written index)
  map : d.map = some (.written s.sidecar)

/-- Accepting the files of a store gives another store that holds the same. -/
theorem Persisted.accept_holds {d : Disk F} {t : FaissStore F} {sidecar : Sidecar}
    (hd : Persisted d s) (hs : Holds s chunks) (hindex : d.index = some (.written index))
    (hmap : d.map = some (.written sidecar)) : Holds (t.accept index sidecar) chunks := by
  obtain ⟨⟨index', hindex', hfile⟩, hsidecar⟩ := hd
  obtain rfl : index = index' := by simpa [hindex] using hfile
  obtain rfl : sidecar = s.sidecar := by simpa [hmap] using hsidecar
  refine ⟨?_, hs.idMap, hs.metadata⟩
  simpa [FaissStore.accept, hindex'] using hs.vectors

/-- The state a successful build leads to. -/
structure Built (p p' : Process F) (chunks : List (StoredChunk F)) (model : Text) : Prop where
  holds : Holds p'.store chunks
  persisted : Persisted p'.disk p'.store
  dim : p'.store.dim = p.store.dim
  embeddingModel : p'.store.embeddingModel = some model

theorem build_error {p : Process F} {e : Exn} (h : p.store.buildIndex chunks = .error e)
    (model : Text) : build chunks model p = .error e p := by
  simp [build, h]

theorem build_ok {p : Process F} (h : p.store.buildIndex chunks = .ok index) (model : Text) :
    ∃ p', build chunks model p = .ok chunks.length p' ∧ Built p p' chunks model := by
  refine ⟨⟨p.store.publish index chunks model, (p.disk.writeIndex index).writeMap
    (p.store.publish index chunks model).sidecar⟩, ?_, publish_holds h, ⟨⟨index, rfl, rfl⟩, rfl⟩,
    rfl, rfl⟩
  have hpersist : persist ⟨p.store.publish index chunks model, p.disk⟩ =
      .ok () ⟨p.store.publish index chunks model, (p.disk.writeIndex index).writeMap
        (p.store.publish index chunks model).sidecar⟩ := by
    simp [persist, FaissStore.publish]
  simp only [build, run_get_bind, h, run_set_bind, run_bind_ok hpersist, run_pure]

end Building

/-! ### Accepting files -/

/-- The files are accepted: they are there, of the right dimension, and stamped with the
model. -/
def Reuses (p : Process F) (model : Text) (index : Index F) (sidecar : Sidecar) : Prop :=
  p.disk.index = some (.written index) ∧ p.disk.map = some (.written sidecar) ∧
    sidecar.dim = p.store.dim ∧ sidecar.embeddingModel = some model

def reuses (p : Process F) (model : Text) : Bool :=
  match p.disk.index, p.disk.map with
  | some (.written _), some (.written sidecar) =>
    sidecar.dim == p.store.dim && sidecar.embeddingModel == some model
  | _, _ => false

theorem reuses_iff {p : Process F} {model : Text} :
    reuses p model = true ↔ ∃ index sidecar, Reuses p model index sidecar := by
  unfold reuses
  constructor
  · intro h
    split at h
    · next index sidecar hindex hmap =>
      obtain ⟨hdim, hmodel⟩ : sidecar.dim = p.store.dim ∧ sidecar.embeddingModel = some model := by
        simpa using h
      exact ⟨index, sidecar, hindex, hmap, hdim, hmodel⟩
    · cases h
  · rintro ⟨index, sidecar, hindex, hmap, hdim, hmodel⟩
    simp [hindex, hmap, hdim, hmodel]

/-- Loading meets no torn file. -/
def Readable (p : Process F) : Prop :=
  p.disk.index = none ∨ p.disk.map = none ∨
    ∃ sidecar, p.disk.map = some (.written sidecar) ∧
      (sidecar.dim = p.store.dim → ∃ index, p.disk.index = some (.written index))

section Ensure

variable {p : Process F} {loaded : List (StoredChunk F)} {model : Text}

theorem load_accepts {index : Index F} {sidecar : Sidecar}
    (hindex : p.disk.index = some (.written index)) (hmap : p.disk.map = some (.written sidecar))
    (hdim : sidecar.dim = p.store.dim) :
    load p = .ok true { p with store := p.store.accept index sidecar } := by
  simp [load, hindex, hmap, hdim]

theorem load_refuses (h : Readable p)
    (hno : ∀ index sidecar, p.disk.index = some (.written index) →
      p.disk.map = some (.written sidecar) → sidecar.dim ≠ p.store.dim) :
    load p = .ok false p := by
  have hmissing : p.disk.index = none ∨ p.disk.map = none → load p = .ok false p := by
    rintro (hnone | hnone)
    · simp [load, hnone]
    · cases hindex : p.disk.index <;> simp [load, hindex, hnone]
  obtain hnone | hnone | ⟨sidecar, hmap, hread⟩ := h
  · exact hmissing (.inl hnone)
  · exact hmissing (.inr hnone)
  · cases hindex : p.disk.index with
    | none => exact hmissing (.inl hindex)
    | some indexFile =>
      have hdim : sidecar.dim ≠ p.store.dim := fun hdim => by
        obtain ⟨index, hindex'⟩ := hread hdim
        exact hno index sidecar hindex' hmap hdim
      simp [load, hindex, hmap, hdim]

theorem load_torn (h : ¬ Readable p) : ∃ e, load p = .error e p := by
  simp only [Readable, not_or, not_exists, not_and] at h
  obtain ⟨hindex, hmap, hread⟩ := h
  obtain ⟨indexFile, hindex⟩ := Option.ne_none_iff_exists'.mp hindex
  obtain ⟨mapFile, hmap⟩ := Option.ne_none_iff_exists'.mp hmap
  cases mapFile with
  | torn =>
    exact ⟨.valueError, by simp [load, hindex, hmap]⟩
  | written sidecar =>
    have hdim : sidecar.dim = p.store.dim := by
      by_contra hdim
      exact hread sidecar hmap fun h => absurd h hdim
    cases indexFile with
    | torn =>
      exact ⟨runtimeError, by simp [load, hindex, hmap, hdim]⟩
    | written index => exact absurd (fun _ => ⟨index, hindex⟩) (hread sidecar hmap)

theorem ensure_reuses {index : Index F} {sidecar : Sidecar} (h : Reuses p model index sidecar) :
    ensure loaded model p = .ok () { p with store := p.store.accept index sidecar } := by
  obtain ⟨hindex, hmap, hdim, hmodel⟩ := h
  simp [ensure, run_bind_ok (load_accepts hindex hmap hdim), FaissStore.accept, hmodel]

theorem ensure_torn (h : ¬ Readable p) : ∃ e, ensure loaded model p = .error e p := by
  obtain ⟨e, he⟩ := load_torn h
  exact ⟨e, run_bind_error he _⟩

theorem ensure_rebuilds (h : Readable p) (hstale : ∀ index sidecar, ¬ Reuses p model index sidecar)
    (hsized : Sized p.store.dim loaded) :
    ∃ p', ensure loaded model p = .ok () p' ∧ Built p p' loaded model := by
  -- the store the build starts from: an accepted one with another model, or the old one
  have hload : ∃ found store, load p = .ok found { p with store } ∧ store.dim = p.store.dim ∧
      (found && store.embeddingModel == some model) = false := by
    by_cases haccept : ∃ index sidecar, p.disk.index = some (.written index) ∧
        p.disk.map = some (.written sidecar) ∧ sidecar.dim = p.store.dim
    · obtain ⟨index, sidecar, hindex, hmap, hdim⟩ := haccept
      have hmodel : sidecar.embeddingModel ≠ some model := fun hmodel =>
        hstale index sidecar ⟨hindex, hmap, hdim, hmodel⟩
      refine ⟨true, p.store.accept index sidecar, load_accepts hindex hmap hdim, rfl, ?_⟩
      simpa [FaissStore.accept] using hmodel
    · refine ⟨false, p.store, load_refuses h fun index sidecar hindex hmap hdim => ?_, rfl, rfl⟩
      exact haccept ⟨index, sidecar, hindex, hmap, hdim⟩
  obtain ⟨found, store, hload, hdim, hstamp⟩ := hload
  obtain ⟨index, hindex⟩ := buildIndex_ok (s := store) (hdim ▸ hsized)
  obtain ⟨p', hbuild, hbuilt⟩ := build_ok (p := { p with store }) hindex model
  refine ⟨p', ?_, hbuilt.holds, hbuilt.persisted, hbuilt.dim.trans hdim, hbuilt.embeddingModel⟩
  simp only [ensure, rebuildFromPg, run_bind_ok hload, run_get_bind, hstamp, run_bind_ok hbuild,
    run_pure, Bool.false_eq_true, if_false]

end Ensure

end GroundedOps.Retrieval
