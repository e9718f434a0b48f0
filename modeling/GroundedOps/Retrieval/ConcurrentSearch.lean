import GroundedOps.Library.Transition
import GroundedOps.Retrieval.StoreContents

/-!
# Searches beside builds

The tasks of an event loop share one store object. A task runs from one suspension
point to the next; a search is suspended once, between capturing the index and reading
the id map, and a build sets its attributes in one go while it holds the lock. The
scheduler may resume any task that is not waiting for the lock.
-/

namespace GroundedOps.Retrieval

open Python Transition

variable {F : Type}

/-- A task at a suspension point, or at its end. -/
inductive Task (F : Type)
  | building (chunks : List (StoredChunk F)) (model : Text)
  | indexing (chunks : List (StoredChunk F)) (model : Text)
  | persisting
  | built
  | asking (args : SearchArgs F)
  | searching (args : SearchArgs F) (index : Index F) (fetch : ℤ) (seen : FaissStore F)
  | answered (args : SearchArgs F) (result : Except Exn (List (RetrievedChunk F)))

/-- The store, its lock and the tasks. `published` remembers every state of the store, and
a suspended search the state it has seen. -/
structure Hub (F : Type) where
  store : FaissStore F
  locked : Bool := false
  tasks : List (Task F) := []
  published : List (FaissStore F)

def Hub.start (s : FaissStore F) : Hub F := { store := s, published := [s] }

def Hub.put (w : Hub F) (i : ℕ) (task : Task F) : Hub F := { w with tasks := w.tasks.set i task }

def Hub.publish (w : Hub F) (s : FaissStore F) : Hub F :=
  { w with store := s, published := w.published ++ [s] }

inductive Event (F : Type)
  | spawn (task : Task F)
  | run (i : ℕ)

section System

variable (engine : Engine F)

inductive Schedule : Hub F → Event F → Hub F → Prop
  | callBuild {w} (chunks model) :
      Schedule w (.spawn (.building chunks model))
        { w with tasks := w.tasks ++ [.building chunks model] }
  | callSearch {w} (args) :
      Schedule w (.spawn (.asking args)) { w with tasks := w.tasks ++ [.asking args] }
  -- the lock is free, and the index is built in a thread
  | acquire {w i chunks model} : w.tasks[i]? = some (.building chunks model) → w.locked = false →
      chunks ≠ [] →
      Schedule w (.run i) ({ w with locked := true }.put i (.indexing chunks model))
  -- without chunks there is no thread hand-off before the attributes are set
  | acquireEmpty {w i model index} : w.tasks[i]? = some (.building [] model) →
      w.locked = false → w.store.buildIndex [] = .ok index →
      Schedule w (.run i)
        (({ w with locked := true }.publish (w.store.publish index [] model)).put i .persisting)
  | indexed {w i chunks model index} : w.tasks[i]? = some (.indexing chunks model) →
      w.store.buildIndex chunks = .ok index →
      Schedule w (.run i) ((w.publish (w.store.publish index chunks model)).put i .persisting)
  | indexFailed {w i chunks model e} : w.tasks[i]? = some (.indexing chunks model) →
      w.store.buildIndex chunks = .error e →
      Schedule w (.run i) ({ w with locked := false }.put i .built)
  | persisted {w i} : w.tasks[i]? = some .persisting →
      Schedule w (.run i) ({ w with locked := false }.put i .built)
  | nothing {w i args} : w.tasks[i]? = some (.asking args) → w.store.searchStart args = none →
      Schedule w (.run i) (w.put i (.answered args (.ok [])))
  | capture {w i args index fetch} : w.tasks[i]? = some (.asking args) →
      w.store.searchStart args = some (index, fetch) →
      Schedule w (.run i) (w.put i (.searching args index fetch w.store))
  | resume {w i args index fetch seen} :
      w.tasks[i]? = some (.searching args index fetch seen) →
      Schedule w (.run i)
        (w.put i (.answered args
          (w.store.searchFinish args (engine.search index args.queryVector fetch))))

/-- If the step resumes a search, every position of the captured index still has the chunk
id and the metadata it had when the index was captured. -/
def Kept (x : Step (Hub F) (Event F)) : Prop :=
  ∀ i args index fetch seen, x.label = .run i →
    x.before.tasks[i]? = some (.searching args index fetch seen) →
    ∀ k < index.vectors.length, x.before.store.idMap[k]? = seen.idMap[k]? ∧
      ∀ chunkId, seen.idMap[k]? = some chunkId →
        x.before.store.metadata.get? chunkId = seen.metadata.get? chunkId

/-- A state of the store that one build has produced, or that of a store without index. -/
def Complete (s : FaissStore F) : Prop := s.index = none ∨ ∃ chunks, Holds s chunks

/-- The result is that of a search against one complete state. Only the search of the
library itself can have failed, and a chunk has the score of its own position. -/
structure Answers (s : FaissStore F) (args : SearchArgs F)
    (result : Except Exn (List (RetrievedChunk F))) : Prop where
  complete : Complete s
  same : result = s.search engine args
  errors : ∀ e, result = .error e → ∃ index fetch, s.searchStart args = some (index, fetch) ∧
    engine.search index args.queryVector fetch = .error e
  scores : ∀ results, result = .ok results → ∀ r ∈ results, ∃ chunks index fetch hits, ∃ k : ℕ,
    Holds s chunks ∧ s.searchStart args = some (index, fetch) ∧
      engine.search index args.queryVector fetch = .ok hits ∧
        (r.score, ↑k) ∈ hits ∧ chunks[k]?.map StoredChunk.chunkId = some r.chunkId

/-- Every answer is that of a state the store has been in. -/
def ReadsOk (w : Hub F) : Prop :=
  ∀ args result, .answered args result ∈ w.tasks → ∃ s ∈ w.published, Answers engine s args result

end System

/-! ### One search -/

section Search

variable {engine : Engine F} {s t : FaissStore F} {args : SearchArgs F}

/-- The loop reads the id map and the metadata at the labels only. -/
theorem searchLoop_congr {hits : List (F × ℤ)} {n : ℕ} (hlt : ∀ hit ∈ hits, hit.2 < n)
    (hsame : ∀ k < n, s.idMap[k]? = t.idMap[k]? ∧ ∀ chunkId, t.idMap[k]? = some chunkId →
      s.metadata.get? chunkId = t.metadata.get? chunkId) (out : List (RetrievedChunk F)) :
    s.searchLoop args hits out = t.searchLoop args hits out := by
  induction hits generalizing out with
  | nil => rfl
  | cons hit hits ih =>
    obtain ⟨score, label⟩ := hit
    have ih' := ih fun hit hhit => hlt hit (List.mem_cons_of_mem _ hhit)
    by_cases hneg : label < 0
    · simp only [FaissStore.searchLoop, if_pos hneg, ih']
    · have hlabel : label < n := hlt _ List.mem_cons_self
      obtain ⟨hid, hmeta⟩ := hsame label.toNat (by omega)
      simp only [FaissStore.searchLoop, if_neg hneg, hid]
      cases hchunk : t.idMap[label.toNat]? with
      | none => rfl
      | some chunkId => simp only [hmeta chunkId hchunk, ih']

theorem searchFinish_congr {index : Index F} {fetch : ℤ}
    (hsame : ∀ k < index.vectors.length, s.idMap[k]? = t.idMap[k]? ∧
      ∀ chunkId, t.idMap[k]? = some chunkId → s.metadata.get? chunkId = t.metadata.get? chunkId) :
    s.searchFinish args (engine.search index args.queryVector fetch) =
      t.searchFinish args (engine.search index args.queryVector fetch) := by
  cases hsearch : engine.search index args.queryVector fetch with
  | error e => rfl
  | ok hits => exact searchLoop_congr (engine.label_lt _ _ _ _ hsearch) hsame []

/-- Against the state of one build the loop finds every label. -/
theorem searchLoop_ok {chunks : List (StoredChunk F)} (hs : Holds s chunks)
    {hits : List (F × ℤ)} (hlt : ∀ hit ∈ hits, hit.2 < chunks.length)
    (out : List (RetrievedChunk F)) : ∃ results, s.searchLoop args hits out = .ok results := by
  induction hits generalizing out with
  | nil => exact ⟨out, rfl⟩
  | cons hit hits ih =>
    obtain ⟨score, label⟩ := hit
    have ih' := ih fun hit hhit => hlt hit (List.mem_cons_of_mem _ hhit)
    by_cases hneg : label < 0
    · simpa only [FaissStore.searchLoop, if_pos hneg] using ih' out
    · have hlabel : label < chunks.length := hlt _ List.mem_cons_self
      obtain ⟨c, hc⟩ : ∃ c, chunks[label.toNat]? = some c :=
        ⟨_, List.getElem?_eq_getElem (by omega)⟩
      have hid : s.idMap[label.toNat]? = some c.chunkId := by simp [hs.idMap, hc]
      obtain ⟨m, hm⟩ : ∃ m, s.metadata.get? c.chunkId = some m := by
        rw [← Option.isSome_iff_exists, Dict.get?_isSome, hs.metadata, Dict.mem_keys_ofList]
        simpa using ⟨c, List.mem_of_getElem? hc, rfl⟩
      simp only [FaissStore.searchLoop, if_neg hneg, hid, hm]
      split
      · exact ih' out
      · split
        · exact ⟨_, rfl⟩
        · exact ih' _

/-- What the loop adds to its output are chunks at the labels, with the scores there. -/
theorem mem_searchLoop {hits : List (F × ℤ)} {out results : List (RetrievedChunk F)}
    (h : s.searchLoop args hits out = .ok results) {r : RetrievedChunk F} (hr : r ∈ results) :
    r ∈ out ∨ ∃ k : ℕ, (r.score, (k : ℤ)) ∈ hits ∧ s.idMap[k]? = some r.chunkId := by
  induction hits generalizing out with
  | nil =>
    cases h
    exact .inl hr
  | cons hit hits ih =>
    obtain ⟨score, label⟩ := hit
    -- a result of the rest of the loop
    have hrest : ∀ {out'}, s.searchLoop args hits out' = .ok results → r ∈ out' ∨
        ∃ k : ℕ, (r.score, (k : ℤ)) ∈ (score, label) :: hits ∧ s.idMap[k]? = some r.chunkId := by
      intro out' h'
      obtain hout | ⟨k, hk, hid⟩ := ih h'
      · exact .inl hout
      · exact .inr ⟨k, List.mem_cons_of_mem _ hk, hid⟩
    by_cases hneg : label < 0
    · exact hrest (by simpa only [FaissStore.searchLoop, if_pos hneg] using h)
    · simp only [FaissStore.searchLoop, if_neg hneg] at h
      split at h
      · cases h
      · next chunkId hid =>
        split at h
        · cases h
        · next m hm =>
          have hnew : r ∈ out ++ [FaissStore.result chunkId m score] → r ∈ out ∨
              ∃ k : ℕ, (r.score, (k : ℤ)) ∈ (score, label) :: hits ∧
                s.idMap[k]? = some r.chunkId := by
            intro hmem
            obtain hmem | hmem := List.mem_append.mp hmem
            · exact .inl hmem
            · obtain rfl := List.mem_singleton.mp hmem
              refine .inr ⟨label.toNat, ?_, hid⟩
              rw [Int.toNat_of_nonneg (not_lt.mp hneg)]
              exact List.mem_cons_self
          split at h
          · exact hrest h
          · split at h
            · cases h
              exact hnew hr
            · obtain hmem | hlater := hrest h
              · exact hnew hmem
              · exact .inr hlater

theorem searchStart_index {index : Index F} {fetch : ℤ}
    (h : s.searchStart args = some (index, fetch)) : s.index = some index := by
  unfold FaissStore.searchStart at h
  split at h
  · cases h
  · next hindex =>
    split at h
    · cases h
    · cases h
      exact hindex

/-- A search against a complete state, during which nothing else runs. -/
theorem search_answers (hs : Complete s) : Answers engine s args (s.search engine args) := by
  cases hstart : s.searchStart args with
  | none =>
    have hsearch : s.search engine args = .ok [] := by simp [FaissStore.search, hstart]
    rw [hsearch]
    refine ⟨hs, hsearch.symm, by simp, fun results hresults r hr => ?_⟩
    cases hresults
    cases hr
  | some start =>
    obtain ⟨index, fetch⟩ := start
    have hindex := searchStart_index hstart
    obtain hnone | ⟨chunks, hchunks⟩ := hs
    · exact absurd (hnone.symm.trans hindex) (by simp)
    obtain ⟨index', hindex', hvectors⟩ := hchunks.exists_index
    obtain rfl : index = index' := by simpa [hindex] using hindex'
    have hlength : index.vectors.length = chunks.length := by simp [hvectors]
    have hsearch : s.search engine args =
        s.searchFinish args (engine.search index args.queryVector fetch) := by
      simp [FaissStore.search, hstart]
    cases hengine : engine.search index args.queryVector fetch with
    | error e =>
      rw [hsearch, hengine]
      refine ⟨.inr ⟨chunks, hchunks⟩, by rw [hsearch, hengine], fun e' he => ?_, fun _ hok => ?_⟩
      · obtain rfl : e = e' := by simpa [FaissStore.searchFinish] using he
        exact ⟨index, fetch, hstart, hengine⟩
      · cases hok
    | ok hits =>
      have hlt : ∀ hit ∈ hits, hit.2 < chunks.length := by
        simpa only [hlength] using engine.label_lt _ _ _ _ hengine
      have hfinish : s.search engine args = s.searchLoop args hits [] := by
        rw [hsearch, hengine]
        rfl
      obtain ⟨results, hresults⟩ : ∃ results, s.searchLoop args hits [] = .ok results :=
        searchLoop_ok hchunks hlt []
      rw [hfinish, hresults]
      refine ⟨.inr ⟨chunks, hchunks⟩, by rw [hfinish, hresults], by simp, fun _ heq r hr => ?_⟩
      cases heq
      obtain hnil | ⟨k, hk, hid⟩ := mem_searchLoop hresults hr
      · cases hnil
      · exact ⟨chunks, index, fetch, hits, k, hchunks, hstart, hengine, hk,
          by simpa [hchunks.idMap] using hid⟩

end Search

/-! ### All searches -/

section Runs

variable {engine : Engine F}

/-- What the store has been in is enough to explain the task. -/
def Task.Fine (engine : Engine F) (published : List (FaissStore F)) : Task F → Prop
  | .searching args index fetch seen =>
    seen ∈ published ∧ seen.searchStart args = some (index, fetch)
  | .answered args result => ∃ s ∈ published, Answers engine s args result
  | _ => True

theorem Task.Fine.mono {published later : List (FaissStore F)} (hsub : published ⊆ later)
    {task : Task F} (h : task.Fine engine published) : task.Fine engine later := by
  cases task with
  | searching => exact ⟨hsub h.1, h.2⟩
  | answered =>
    obtain ⟨s, hs, hanswers⟩ := h
    exact ⟨s, hsub hs, hanswers⟩
  | _ => trivial

/-- The invariant of the event loop. -/
structure Hub.Sound (engine : Engine F) (w : Hub F) : Prop where
  current : w.store ∈ w.published
  complete : ∀ s ∈ w.published, Complete s
  tasks : ∀ task ∈ w.tasks, task.Fine engine w.published

namespace Hub.Sound

variable {w : Hub F}

theorem start {s : FaissStore F} (hs : Complete s) : (Hub.start s).Sound engine where
  current := List.mem_singleton_self s
  complete t ht := List.mem_singleton.mp ht ▸ hs
  tasks _ h := by cases h

theorem spawn (hw : w.Sound engine) {task : Task F} (htask : task.Fine engine w.published) :
    ({ w with tasks := w.tasks ++ [task] } : Hub F).Sound engine where
  current := hw.current
  complete := hw.complete
  tasks t ht := by
    obtain hmem | hmem := List.mem_append.mp ht
    · exact hw.tasks t hmem
    · exact List.mem_singleton.mp hmem ▸ htask

theorem put (hw : w.Sound engine) (i : ℕ) {task : Task F}
    (htask : task.Fine engine w.published) : (w.put i task).Sound engine where
  current := hw.current
  complete := hw.complete
  tasks t ht := by
    obtain hmem | rfl := List.mem_or_eq_of_mem_set ht
    · exact hw.tasks t hmem
    · exact htask

theorem lock (hw : w.Sound engine) (locked : Bool) : ({ w with locked } : Hub F).Sound engine :=
  ⟨hw.current, hw.complete, hw.tasks⟩

theorem publish (hw : w.Sound engine) {s : FaissStore F} (hs : Complete s) :
    (w.publish s).Sound engine where
  current := by simp [Hub.publish]
  complete t ht := by
    obtain hmem | hmem := List.mem_append.mp ht
    · exact hw.complete t hmem
    · exact List.mem_singleton.mp hmem ▸ hs
  tasks t ht := (hw.tasks t ht).mono (List.subset_append_left _ _)

/-- A search that finds the ids and metadata it has seen answers from what it has seen. -/
theorem resume (hw : w.Sound engine) {i : ℕ} {args : SearchArgs F} {index : Index F} {fetch : ℤ}
    {seen : FaissStore F} (htask : w.tasks[i]? = some (.searching args index fetch seen))
    (hsame : ∀ k < index.vectors.length, w.store.idMap[k]? = seen.idMap[k]? ∧
      ∀ chunkId, seen.idMap[k]? = some chunkId →
        w.store.metadata.get? chunkId = seen.metadata.get? chunkId) :
    (w.put i (.answered args (w.store.searchFinish args
      (engine.search index args.queryVector fetch)))).Sound engine := by
  obtain ⟨hseen, hstart⟩ := hw.tasks _ (List.mem_of_getElem? htask)
  have hresult : w.store.searchFinish args (engine.search index args.queryVector fetch) =
      seen.search engine args := by
    rw [searchFinish_congr hsame, FaissStore.search, hstart]
  refine hw.put i ⟨seen, hseen, ?_⟩
  rw [hresult]
  exact search_answers (hw.complete seen hseen)

theorem step {event : Event F} {w' : Hub F} (hw : w.Sound engine)
    (hstep : Schedule engine w event w') (hkept : Kept ⟨w, event, w'⟩) : w'.Sound engine := by
  cases hstep with
  | callBuild => exact hw.spawn trivial
  | callSearch => exact hw.spawn trivial
  | acquire => exact (hw.lock true).put _ trivial
  | acquireEmpty _ _ hindex =>
    exact ((hw.lock true).publish (.inr ⟨[], publish_holds hindex⟩)).put _ trivial
  | indexed _ hindex => exact (hw.publish (.inr ⟨_, publish_holds hindex⟩)).put _ trivial
  | indexFailed => exact (hw.lock false).put _ trivial
  | persisted => exact (hw.lock false).put _ trivial
  | @nothing i args _ hstart =>
    have hsearch : w.store.search engine args = .ok [] := by simp [FaissStore.search, hstart]
    have hanswers : Answers engine w.store args _ := search_answers (hw.complete _ hw.current)
    exact hw.put _ ⟨w.store, hw.current, hsearch ▸ hanswers⟩
  | capture _ hstart => exact hw.put _ ⟨hw.current, hstart⟩
  | resume htask => exact hw.resume htask (hkept _ _ _ _ _ rfl htask)

end Hub.Sound

/-- In every run from a complete state in which every search that resumes still finds the
ids and the metadata of the index it has captured, every answer is right. -/
theorem searches_answered {s : FaissStore F} (hs : Complete s)
    {steps : List (Step (Hub F) (Event F))} {w : Hub F}
    (h : Run (Schedule engine) (Hub.start s) steps w) (hkept : ∀ x ∈ steps, Kept x) :
    ReadsOk engine w := by
  have hsound := Run.invariant_of (I := Hub.Sound engine) (P := Kept)
    (fun _ _ _ ht hstep hx => ht.step hstep hx) h hkept (Hub.Sound.start hs)
  exact fun args result hmem => hsound.tasks _ hmem

end Runs

section Flat

/-- Exhaustive search by inner product, the best first. -/
def flatSearch (index : Index ℕ) (query : List ℕ) (fetch : ℤ) : Except Exn (List (ℕ × ℤ)) :=
  if query.length ≠ index.dim ∨ fetch ≤ 0 then .error assertionError
  else
    let scored := index.vectors.zipIdx.map fun (v, i) => ((v.zipWith (· * ·) query).sum, (i : ℤ))
    .ok ((scored.insertionSort fun a b => b.1 ≤ a.1).take fetch.toNat)

def flatEngine : Engine ℕ where
  search := flatSearch
  label_lt index query fetch hits h hit hhit := by
    unfold flatSearch at h
    split at h
    · cases h
    · cases h
      have hscored := (List.perm_insertionSort _ _).mem_iff.mp (List.mem_of_mem_take hhit)
      obtain ⟨⟨v, i⟩, hv, rfl⟩ := List.mem_map.mp hscored
      have hi := List.snd_lt_of_mem_zipIdx hv
      simpa using hi

def entry (id : Text) (value : ℕ) : StoredChunk ℕ :=
  ⟨id, ⟨id, "ticket".toList, id, id, 0, 1⟩, [value]⟩

def oldCorpus : List (StoredChunk ℕ) := [entry "a".toList 1, entry "b".toList 2]
def newCorpus : List (StoredChunk ℕ) := [entry "c".toList 3]
def grownCorpus : List (StoredChunk ℕ) := oldCorpus ++ newCorpus

def storeOf (chunks : List (StoredChunk ℕ)) : FaissStore ℕ :=
  FaissStore.publish { dim := 1 } ⟨.flat, 1, chunks.map StoredChunk.embedding⟩ chunks "m".toList

theorem storeOf_complete (chunks : List (StoredChunk ℕ)) : Complete (storeOf chunks) :=
  .inr ⟨chunks, rfl, rfl, rfl⟩

def question : SearchArgs ℕ := { queryVector := [1], topK := 2 }

def oldIndex : Index ℕ := ⟨.flat, 1, [[1], [2]]⟩

/-- The search in its thread, with what it has captured. -/
def inThread : Task ℕ := .searching question oldIndex 2 (storeOf oldCorpus)

/-- The event loop while only the old corpus has been published. -/
def before (locked : Bool) (tasks : List (Task ℕ)) : Hub ℕ :=
  { store := storeOf oldCorpus, locked, tasks, published := [storeOf oldCorpus] }

/-- The event loop after a build with these chunks. -/
def behind (chunks : List (StoredChunk ℕ)) (tasks : List (Task ℕ)) : Hub ℕ where
  store := storeOf chunks
  locked := true
  tasks := tasks
  published := [storeOf oldCorpus, storeOf chunks]

section Overtaken

variable {chunks : List (StoredChunk ℕ)}

/-- A build publishes while the search is in its thread. -/
def overtakenSteps (chunks : List (StoredChunk ℕ))
    (result : Except Exn (List (RetrievedChunk ℕ))) : List (Step (Hub ℕ) (Event ℕ)) :=
  let building : Task ℕ := .building chunks "m".toList
  let indexing : Task ℕ := .indexing chunks "m".toList
  [⟨Hub.start (storeOf oldCorpus), .spawn (.asking question), before false [.asking question]⟩,
    ⟨before false [.asking question], .spawn building, before false [.asking question, building]⟩,
    ⟨before false [.asking question, building], .run 0, before false [inThread, building]⟩,
    ⟨before false [inThread, building], .run 1, before true [inThread, indexing]⟩,
    ⟨before true [inThread, indexing], .run 1, behind chunks [inThread, .persisting]⟩,
    ⟨behind chunks [inThread, .persisting], .run 0,
      behind chunks [.answered question result, .persisting]⟩]

theorem overtaken_run {index : Index ℕ} (hne : chunks ≠ [])
    (hindex : (storeOf oldCorpus).buildIndex chunks = .ok index)
    (hstore : (storeOf oldCorpus).publish index chunks "m".toList = storeOf chunks)
    {result : Except Exn (List (RetrievedChunk ℕ))}
    (hresult : (storeOf chunks).searchFinish question
      (flatEngine.search oldIndex question.queryVector 2) = result) :
    Run (Schedule flatEngine) (Hub.start (storeOf oldCorpus)) (overtakenSteps chunks result)
      (behind chunks [.answered question result, .persisting]) := by
  have hindexed : Schedule flatEngine (before true [inThread, .indexing chunks "m".toList]) (.run 1)
      (behind chunks [inThread, .persisting]) := by
    rw [behind, ← hstore]
    exact .indexed rfl hindex
  have hresume : Schedule flatEngine (behind chunks [inThread, .persisting]) (.run 0)
      (behind chunks [.answered question result, .persisting]) := by
    rw [← hresult]
    have hthread : (behind chunks [inThread, .persisting]).tasks[0]? =
        some (.searching question oldIndex 2 (storeOf oldCorpus)) := rfl
    exact .resume hthread
  refine .snoc (.snoc (.snoc (.snoc (.snoc (.snoc .nil (.callSearch question))
    (.callBuild chunks _)) ?_) ?_) hindexed) hresume
  · exact .capture rfl rfl
  · exact .acquire rfl rfl hne

/-- The one search that resumes does so behind the build. -/
theorem kept_overtaken {result : Except Exn (List (RetrievedChunk ℕ))}
    (h : ∀ k < 2, (storeOf chunks).idMap[k]? = (storeOf oldCorpus).idMap[k]? ∧
      ∀ chunkId, (storeOf oldCorpus).idMap[k]? = some chunkId →
        (storeOf chunks).metadata.get? chunkId = (storeOf oldCorpus).metadata.get? chunkId) :
    ∀ x ∈ overtakenSteps chunks result, Kept x := by
  intro x hx i args index fetch seen hlabel htask
  simp only [overtakenSteps, List.mem_cons, List.not_mem_nil, or_false] at hx
  obtain rfl | rfl | rfl | rfl | rfl | rfl := hx
  · cases hlabel
  · cases hlabel
  · cases hlabel
    cases htask
  · cases hlabel
    cases htask
  · cases hlabel
    cases htask
  · cases hlabel
    cases htask
    exact h

end Overtaken

/-- The build publishes the same chunks and one more. -/
theorem searches_answered_grown : ReadsOk flatEngine (behind grownCorpus
    [.answered question ((storeOf oldCorpus).search flatEngine question), .persisting]) := by
  have hsame : (storeOf grownCorpus).searchFinish question
      (flatEngine.search oldIndex question.queryVector 2) =
        (storeOf oldCorpus).search flatEngine question := rfl
  have hrun := overtaken_run (by decide : grownCorpus ≠ []) rfl rfl hsame
  refine searches_answered (storeOf_complete oldCorpus) hrun (kept_overtaken fun k hk => ?_)
  -- the two old positions come first in the grown corpus
  interval_cases k
  · exact ⟨rfl, by rintro _ ⟨⟩; rfl⟩
  · exact ⟨rfl, by rintro _ ⟨⟩; rfl⟩

/-- A build publishes one chunk while a search over two is in its thread. -/
theorem search_index_error : ∃ steps w,
    Run (Schedule flatEngine) (Hub.start (storeOf oldCorpus)) steps w ∧
      .answered question (.error indexError) ∈ w.tasks ∧
        ∀ s ∈ w.published, Complete s ∧ ∃ results, s.search flatEngine question = .ok results := by
  have hraised : (storeOf newCorpus).searchFinish question
      (flatEngine.search oldIndex question.queryVector 2) = .error indexError := rfl
  have hrun := overtaken_run (by decide : newCorpus ≠ []) rfl rfl hraised
  refine ⟨_, _, hrun, List.mem_cons_self, fun s hs => ?_⟩
  have hpublished : s = storeOf oldCorpus ∨ s = storeOf newCorpus := by simpa [behind] using hs
  obtain rfl | rfl := hpublished
  · exact ⟨storeOf_complete _, _, rfl⟩
  · exact ⟨storeOf_complete _, _, rfl⟩

end Flat

end GroundedOps.Retrieval
