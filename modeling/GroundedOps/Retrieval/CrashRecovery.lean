import GroundedOps.Library.Transition
import GroundedOps.Retrieval.StoreContents

/-!
# Builds whose persisting is cut short

Persisting writes the index file, then the map file, and may end anywhere: the process
may die or a write may fail. The two files are seen as one of three conditions, which
every build changes in a fixed way; what a fresh process finds depends on the condition.
-/

namespace GroundedOps.Retrieval

open Python Ingestion Program Transition

variable {F : Type} {dim : ℕ}

/-- Where persisting ends. -/
inductive Cut
  | beforeIndex
  | inIndex
  | betweenFiles
  | inMap
  | complete
  deriving DecidableEq

namespace Cut

def touchesIndex : Cut → Bool
  | .beforeIndex => false
  | _ => true

def touchesMap : Cut → Bool
  | .inMap | .complete => true
  | _ => false

end Cut

def interrupted : Exn := .other "interrupted".toList

def Disk.tearIndex (d : Disk F) : Disk F := { d with index := some .torn }

def Disk.tearMap (d : Disk F) : Disk F := { d with map := some .torn }

/-- `persist`, which ends at the cut. -/
def persistUntil (cut : Cut) : StoreM F Unit := do
  let p ← get
  match p.store.index with
  | none => throw assertionError
  | some index =>
    match cut with
    | .beforeIndex => throw interrupted
    | .inIndex => do
      set { p with disk := p.disk.tearIndex }
      throw interrupted
    | .betweenFiles => do
      set { p with disk := p.disk.writeIndex index }
      throw interrupted
    | .inMap => do
      set { p with disk := (p.disk.writeIndex index).tearMap }
      throw interrupted
    | .complete => persist

def buildUntil (cut : Cut) (chunks : List (StoredChunk F)) (model : Text) : StoreM F ℕ := do
  let p ← get
  match p.store.buildIndex chunks with
  | .error e => throw e
  | .ok index =>
    set { p with store := p.store.publish index chunks model }
    persistUntil cut
    return chunks.length

/-- Without a cut this is `build`. -/
theorem buildUntil_complete : buildUntil (F := F) .complete = build := by
  have hpersist : persistUntil (F := F) .complete = persist := by
    funext p
    cases hindex : p.store.index <;> simp [persistUntil, persist, hindex]
  funext chunks model
  rw [buildUntil, hpersist]
  rfl

/-- What persisting leaves behind when it ends at the cut. -/
def cutDisk (cut : Cut) (index : Index F) (sidecar : Sidecar) (d : Disk F) : Disk F :=
  match cut with
  | .beforeIndex => d
  | .inIndex => d.tearIndex
  | .betweenFiles => d.writeIndex index
  | .inMap => (d.writeIndex index).tearMap
  | .complete => (d.writeIndex index).writeMap sidecar

theorem persistUntil_final {p : Process F} {index : Index F} (h : p.store.index = some index)
    (cut : Cut) :
    final (persistUntil cut p) = ⟨p.store, cutDisk cut index p.store.sidecar p.disk⟩ := by
  cases cut <;> simp [persistUntil, persist, h, final, cutDisk]

theorem buildUntil_final {p : Process F} {chunks : List (StoredChunk F)} {index : Index F}
    (h : p.store.buildIndex chunks = .ok index) (cut : Cut) (model : Text) :
    final (buildUntil cut chunks model p) =
      ⟨p.store.publish index chunks model,
        cutDisk cut index (p.store.publish index chunks model).sidecar p.disk⟩ := by
  simp only [buildUntil, run_get_bind, h, run_set_bind, final_bind_pure]
  exact persistUntil_final rfl cut

/-! ### Histories of builds -/

/-- A process, the builds so far with what they were given and where they ended, and the
numbers of those that last wrote the two files. -/
structure Site (F : Type) where
  process : Process F
  builds : List (List (StoredChunk F) × Cut) := []
  indexBuild : Option ℕ := none
  mapBuild : Option ℕ := none

inductive Attempt (F : Type)
  | build (chunks : List (StoredChunk F)) (cut : Cut)
  | restart (indexType : Text)

def Attempt.cut? : Attempt F → Option Cut
  | .build _ cut => some cut
  | .restart _ => none

def Site.start (dim : ℕ) (indexType : Text) : Site F := { process := { store := { dim, indexType } } }

/-- Builds of chunks with distinct ids and vectors of the right dimension, all under one
embedding model, each cut short or not, with restarts anywhere. -/
inductive Attempts (dim : ℕ) (model : Text) : Site F → Attempt F → Site F → Prop
  | build {w chunks} (cut : Cut) : (chunks.map StoredChunk.chunkId).Nodup → Sized dim chunks →
      Attempts dim model w (.build chunks cut)
        { process := final (buildUntil cut chunks model w.process)
          builds := w.builds ++ [(chunks, cut)]
          indexBuild := if cut.touchesIndex then some w.builds.length else w.indexBuild
          mapBuild := if cut.touchesMap then some w.builds.length else w.mapBuild }
  | restart {w} (indexType) :
      Attempts dim model w (.restart indexType)
        { w with process := { w.process with store := { dim, indexType } } }

/-- The cuts of the builds of a history, in order. -/
def cuts (steps : List (Step (Site F) (Attempt F))) : List Cut :=
  steps.filterMap fun x => x.label.cut?

/-- No build has reached the map file, or the last one that touched the index file is
complete. -/
def Intact (cuts : List Cut) : Prop :=
  (∀ c ∈ cuts, c.touchesMap = false) ∨
    (cuts.filter Cut.touchesIndex).getLast? = some .complete

/-- Both files are those of one complete build, which was given these chunks. -/
def FilesOf (builds : List (List (StoredChunk F) × Cut)) (indexBuild mapBuild : Option ℕ)
    (chunks : List (StoredChunk F)) : Prop :=
  ∃ n, indexBuild = some n ∧ mapBuild = some n ∧ builds[n]? = some (chunks, .complete)

/-- A fresh process with the same model gets a store with the vectors, ids and metadata of
certain chunks: those of the one build whose files it accepts, or else those of the table. -/
def Recovers (dim : ℕ) (model indexType : Text) (loaded : List (StoredChunk F)) (w : Site F) :
    Prop :=
  ∃ p chunks, ensure loaded model ⟨{ dim, indexType }, w.process.disk⟩ = .ok () p ∧
    Aligned p.store chunks ∧
    if reuses (⟨{ dim, indexType }, w.process.disk⟩ : Process F) model then
      FilesOf w.builds w.indexBuild w.mapBuild chunks
    else chunks = loaded

/-! ### The condition of the files -/

/-- What the files are worth: there is no map, they are those of one build, or neither. -/
inductive Health
  | unmapped
  | whole
  | broken
  deriving DecidableEq

def Health.after (h : Health) : Cut → Health
  | .beforeIndex => h
  | .inIndex | .betweenFiles => if h = .unmapped then .unmapped else .broken
  | .inMap => .broken
  | .complete => .whole

def health (cuts : List Cut) : Health := cuts.foldl Health.after .unmapped

theorem health_append (cuts : List Cut) (cut : Cut) :
    health (cuts ++ [cut]) = (health cuts).after cut := by
  simp [health]

theorem health_unmapped_iff (cuts : List Cut) :
    health cuts = .unmapped ↔ ∀ c ∈ cuts, c.touchesMap = false := by
  induction cuts using List.reverseRecOn with
  | nil => simp [health]
  | append_singleton cuts cut ih =>
    rw [health_append]
    cases cut <;> simp [Health.after, Cut.touchesMap, ih, or_imp, forall_and]

/-- The condition in terms of the cuts alone. -/
theorem intact_iff (cuts : List Cut) : Intact cuts ↔ health cuts ≠ .broken := by
  induction cuts using List.reverseRecOn with
  | nil => simp [Intact, health]
  | append_singleton cuts cut ih =>
    have hunmapped := health_unmapped_iff cuts
    rw [health_append]
    unfold Intact at ih ⊢
    rw [List.filter_append]
    cases cut with
    | beforeIndex => simpa [Cut.touchesIndex, Cut.touchesMap, Health.after, or_imp, forall_and] using ih
    | inIndex => simp [Cut.touchesIndex, Cut.touchesMap, Health.after, or_imp, forall_and, hunmapped]
    | betweenFiles =>
      simp [Cut.touchesIndex, Cut.touchesMap, Health.after, or_imp, forall_and, hunmapped]
    | inMap => simp [Cut.touchesIndex, Cut.touchesMap, Health.after, or_imp, forall_and]
    | complete => simp [Cut.touchesIndex, Health.after]

/-- The files, last written by the two builds, are worth what the condition says. -/
def Shows (dim : ℕ) (model : Text) (d : Disk F) (builds : List (List (StoredChunk F) × Cut))
    (indexBuild mapBuild : Option ℕ) : Health → Prop
  | .unmapped => d.map = none
  | .whole => ∃ s chunks, FilesOf builds indexBuild mapBuild chunks ∧ Holds s chunks ∧
      (chunks.map StoredChunk.chunkId).Nodup ∧ Persisted d s ∧ s.dim = dim ∧
        s.embeddingModel = some model
  | .broken => d.map = some .torn ∧ d.index.isSome ∨
      ∃ sidecar, d.map = some (.written sidecar) ∧ sidecar.dim = dim ∧
        sidecar.embeddingModel = some model ∧
          (d.index = some .torn ∨
            (∃ index, d.index = some (.written index)) ∧ indexBuild ≠ mapBuild)

/-- The invariant of a history. The number of the next build is new. -/
structure Tracks (dim : ℕ) (model : Text) (w : Site F) (h : Health) : Prop where
  storeDim : w.process.store.dim = dim
  fresh : ∀ n, w.mapBuild = some n → n < w.builds.length
  shows : Shows dim model w.process.disk w.builds w.indexBuild w.mapBuild h

theorem tracks_start (dim : ℕ) (model indexType : Text) :
    Tracks dim model (Site.start dim indexType : Site F) .unmapped :=
  ⟨rfl, by simp [Site.start], rfl⟩

section Step

variable {model : Text} {d : Disk F} {builds : List (List (StoredChunk F) × Cut)}
  {indexBuild mapBuild : Option ℕ} {h : Health}

theorem FilesOf.append {chunks : List (StoredChunk F)}
    (hfiles : FilesOf builds indexBuild mapBuild chunks)
    (later : List (List (StoredChunk F) × Cut)) :
    FilesOf (builds ++ later) indexBuild mapBuild chunks := by
  obtain ⟨n, hindex, hmap, hbuild⟩ := hfiles
  have hlt : n < builds.length := (List.getElem?_eq_some_iff.mp hbuild).1
  exact ⟨n, hindex, hmap, by rw [List.getElem?_append_left hlt, hbuild]⟩

theorem Shows.append (hshows : Shows dim model d builds indexBuild mapBuild h)
    (later : List (List (StoredChunk F) × Cut)) :
    Shows dim model d (builds ++ later) indexBuild mapBuild h := by
  cases h with
  | unmapped => exact hshows
  | whole =>
    obtain ⟨s, chunks, hfiles, hrest⟩ := hshows
    exact ⟨s, chunks, hfiles.append later, hrest⟩
  | broken => exact hshows

/-- A map file that is there is torn, or of the history's dimension and model. -/
theorem Shows.map (hshows : Shows dim model d builds indexBuild mapBuild h) (hne : h ≠ .unmapped) :
    d.map = some .torn ∨ ∃ sidecar, d.map = some (.written sidecar) ∧ sidecar.dim = dim ∧
      sidecar.embeddingModel = some model := by
  cases h with
  | unmapped => exact absurd rfl hne
  | whole =>
    obtain ⟨s, chunks, -, -, -, hfiles, hdim, hmodel⟩ := hshows
    exact .inr ⟨s.sidecar, hfiles.map, hdim, hmodel⟩
  | broken =>
    obtain ⟨htorn, -⟩ | ⟨sidecar, hmap, hdim, hmodel, -⟩ := hshows
    · exact .inl htorn
    · exact .inr ⟨sidecar, hmap, hdim, hmodel⟩

theorem Shows.tearIndex (hshows : Shows dim model d builds indexBuild mapBuild h) (build : Option ℕ) :
    Shows dim model d.tearIndex builds build mapBuild (h.after .inIndex) := by
  by_cases hne : h = .unmapped
  · subst hne
    exact hshows
  · rw [Health.after, if_neg hne]
    obtain htorn | ⟨sidecar, hmap, hdim, hmodel⟩ := hshows.map hne
    · exact .inl ⟨htorn, rfl⟩
    · exact .inr ⟨sidecar, hmap, hdim, hmodel, .inl rfl⟩

theorem Shows.writeIndex (hshows : Shows dim model d builds indexBuild mapBuild h) (index : Index F)
    {build : Option ℕ} (hnew : build ≠ mapBuild) :
    Shows dim model (d.writeIndex index) builds build mapBuild (h.after .betweenFiles) := by
  by_cases hne : h = .unmapped
  · subst hne
    exact hshows
  · rw [Health.after, if_neg hne]
    obtain htorn | ⟨sidecar, hmap, hdim, hmodel⟩ := hshows.map hne
    · exact .inl ⟨htorn, rfl⟩
    · exact .inr ⟨sidecar, hmap, hdim, hmodel, .inr ⟨⟨index, rfl⟩, hnew⟩⟩

theorem Tracks.build {w : Site F} (ht : Tracks dim model w h) {chunks : List (StoredChunk F)}
    (hnodup : (chunks.map StoredChunk.chunkId).Nodup) {index : Index F}
    (hindex : w.process.store.buildIndex chunks = .ok index) (cut : Cut) :
    Tracks dim model
      { process := final (buildUntil cut chunks model w.process)
        builds := w.builds ++ [(chunks, cut)]
        indexBuild := if cut.touchesIndex then some w.builds.length else w.indexBuild
        mapBuild := if cut.touchesMap then some w.builds.length else w.mapBuild }
      (h.after cut) := by
  rw [buildUntil_final hindex]
  have hlength : (w.builds ++ [(chunks, cut)]).length = w.builds.length + 1 := by simp
  refine ⟨ht.storeDim, fun n hn => ?_, ?_⟩
  · dsimp only at hn ⊢
    rw [hlength]
    split at hn
    · obtain rfl : w.builds.length = n := by simpa using hn
      exact Nat.lt_succ_self _
    · exact Nat.lt_succ_of_lt (ht.fresh n hn)
  · have hshows := ht.shows.append [(chunks, cut)]
    cases cut with
    | beforeIndex => exact hshows
    | inIndex => exact hshows.tearIndex _
    | betweenFiles =>
      refine hshows.writeIndex index fun hsame => ?_
      exact absurd (ht.fresh _ hsame.symm) (lt_irrefl _)
    | inMap => exact .inl ⟨rfl, rfl⟩
    | complete =>
      have hfiles : FilesOf (w.builds ++ [(chunks, .complete)]) (some w.builds.length)
          (some w.builds.length) chunks := ⟨_, rfl, rfl, List.getElem?_concat_length⟩
      exact ⟨_, chunks, hfiles, publish_holds hindex, hnodup, ⟨⟨index, rfl, rfl⟩, rfl⟩,
        ht.storeDim, rfl⟩

theorem Tracks.step {w w' : Site F} (ht : Tracks dim model w h) {attempt : Attempt F}
    (hstep : Attempts dim model w attempt w') :
    Tracks dim model w' ((attempt.cut?.map h.after).getD h) := by
  cases hstep with
  | build cut hnodup hsized =>
    obtain ⟨index, hindex⟩ := buildIndex_ok (ht.storeDim.symm ▸ hsized)
    exact ht.build hnodup hindex cut
  | restart indexType => exact ⟨rfl, ht.fresh, ht.shows⟩

end Step

/-- The files behind a history are in the condition its cuts lead to. -/
theorem tracks_run {model indexType : Text} {steps : List (Step (Site F) (Attempt F))} {w : Site F}
    (h : Run (Attempts dim model) (Site.start dim indexType) steps w) :
    Tracks dim model w (health (cuts steps)) := by
  induction h with
  | nil => exact tracks_start dim model indexType
  | @snoc steps t attempt u hrun hstep ih =>
    have hcuts : health (cuts (steps ++ [⟨t, attempt, u⟩])) =
        (attempt.cut?.map (health (cuts steps)).after).getD (health (cuts steps)) := by
      cases hcut : attempt.cut? <;> simp [cuts, hcut, health]
    rw [hcuts]
    exact ih.step hstep

/-- A fresh process recovers exactly from unbroken files. -/
theorem Tracks.recovers_iff {model : Text} {w : Site F} {h : Health} (ht : Tracks dim model w h)
    (indexType : Text) {loaded : List (StoredChunk F)}
    (hnodup : (loaded.map StoredChunk.chunkId).Nodup) (hsized : Sized dim loaded) :
    Recovers dim model indexType loaded w ↔ h ≠ .broken := by
  have hshows := ht.shows
  let p : Process F := ⟨{ dim, indexType }, w.process.disk⟩
  cases h with
  | unmapped =>
    have hmap : p.disk.map = none := hshows
    have hstale : ∀ index sidecar, ¬ Reuses p model index sidecar := by
      rintro index sidecar ⟨-, hwritten, -⟩
      simp [hmap] at hwritten
    obtain ⟨p', hensure, hbuilt⟩ := ensure_rebuilds (.inr (.inl hmap)) hstale hsized
    have hrefused : ¬ reuses p model = true := by
      intro hreuses
      obtain ⟨index, sidecar, hfiles⟩ := reuses_iff.mp hreuses
      exact hstale index sidecar hfiles
    refine iff_of_true ⟨p', loaded, hensure, hbuilt.holds.aligned hnodup, ?_⟩ (by decide)
    rw [if_neg hrefused]
  | whole =>
    obtain ⟨s, chunks, hbuild, hholds, hids, hfiles, hdim, hmodel⟩ := hshows
    obtain ⟨index, -, hindex⟩ := hfiles.index
    have hreuses : Reuses p model index s.sidecar := ⟨hindex, hfiles.map, hdim, hmodel⟩
    have haccept := hfiles.accept_holds (t := p.store) hholds hindex hfiles.map
    refine iff_of_true ⟨_, chunks, ensure_reuses hreuses, haccept.aligned hids, ?_⟩ (by decide)
    rw [if_pos (reuses_iff.mpr ⟨index, s.sidecar, hreuses⟩)]
    exact hbuild
  | broken =>
    refine iff_of_false ?_ (by simp)
    rintro ⟨p', chunks, hensure, -, hsame⟩
    have hreadable : Readable p := by
      by_contra hread
      obtain ⟨e, herror⟩ : ∃ e, ensure loaded model p = .error e p := ensure_torn hread
      rw [herror] at hensure
      cases hensure
    obtain ⟨htorn, hsome⟩ | ⟨sidecar, hmap, hdim, hmodel, htorn | ⟨⟨index, hindex⟩, hmixed⟩⟩ := hshows
    · obtain hnone | hnone | ⟨sidecar, hwritten, -⟩ := hreadable
      · exact absurd hnone (Option.isSome_iff_ne_none.mp hsome)
      · exact absurd (hnone.symm.trans htorn) (by simp)
      · exact absurd (hwritten.symm.trans htorn) (by simp)
    · obtain hnone | hnone | ⟨sidecar', hwritten, hread⟩ := hreadable
      · exact absurd (hnone.symm.trans htorn) (by simp)
      · exact absurd (hnone.symm.trans hmap) (by simp)
      · obtain rfl : sidecar = sidecar' := by simpa using hmap.symm.trans hwritten
        obtain ⟨index, hindex⟩ := hread hdim
        exact absurd (hindex.symm.trans htorn) (by simp)
    · have hreuses : reuses p model = true :=
        reuses_iff.mpr ⟨index, sidecar, hindex, hmap, hdim, hmodel⟩
      rw [if_pos hreuses] at hsame
      obtain ⟨n, hindexBuild, hmapBuild, -⟩ := hsame
      exact hmixed (hindexBuild.trans hmapBuild.symm)

/-- After every history of builds, a fresh process recovers if and only if no build has
reached the map file or the last one that touched the index file is complete. -/
theorem recovers_iff_intact {model indexType : Text} {steps : List (Step (Site F) (Attempt F))}
    {w : Site F} (h : Run (Attempts dim model) (Site.start dim indexType) steps w)
    (freshType : Text) {table : ChunkTable F dim} {loaded : List (StoredChunk F)}
    (hloaded : LoadAll table loaded) :
    Recovers dim model freshType loaded w ↔ Intact (cuts steps) := by
  rw [intact_iff]
  exact (tracks_run h).recovers_iff freshType hloaded.nodup hloaded.sized

section Mixed

def attempted (chunks : List (StoredChunk ℕ)) (cut : Cut) (w : Site ℕ) : Site ℕ where
  process := final (buildUntil cut chunks "m".toList w.process)
  builds := w.builds ++ [(chunks, cut)]
  indexBuild := if cut.touchesIndex then some w.builds.length else w.indexBuild
  mapBuild := if cut.touchesMap then some w.builds.length else w.mapBuild

def note (id : Text) (value : ℕ) : StoredChunk ℕ :=
  ⟨id, ⟨id, "ticket".toList, id, id, 0, 1⟩, [value]⟩

def oneNote : List (StoredChunk ℕ) := [note "a".toList 1]
def twoNotes : List (StoredChunk ℕ) := [note "b".toList 2, note "a".toList 1]

def mixedSite : Site ℕ :=
  attempted twoNotes .betweenFiles (attempted oneNote .complete (Site.start 1 "flat".toList))

/-- A build, and a second one that ends between its two files. -/
def mixedSteps : List (Step (Site ℕ) (Attempt ℕ)) :=
  let w := Site.start 1 "flat".toList
  [⟨w, .build oneNote .complete, attempted oneNote .complete w⟩,
    ⟨attempted oneNote .complete w, .build twoNotes .betweenFiles, mixedSite⟩]

theorem mixedSteps_run :
    Run (Attempts 1 "m".toList) (Site.start 1 "flat".toList) mixedSteps mixedSite :=
  .snoc (.snoc .nil (.build .complete (by decide) (by unfold Sized; decide)))
    (.build .betweenFiles (by decide) (by unfold Sized; decide))

def noteRow (id : Text) (value : ℕ) : ChunkRow ℕ :=
  ⟨id, id, "ticket".toList, id, 0, 0, 1, id, [value], "m".toList, 0⟩

/-- The rows that the second build was given. -/
def noteRows : List (ChunkRow ℕ) := [noteRow "b".toList 2, noteRow "a".toList 1]

def noteTable : ChunkTable ℕ 1 where
  rows := ⟨noteRows.map fun r => (r.chunkId, r), by decide⟩
  keyed := ChunkTable.keyed_map noteRows
  sized := ChunkTable.sized_map (by simp [noteRows, noteRow])

theorem recovers_iff_intact_mixed :
    Recovers 1 "m".toList "flat".toList twoNotes mixedSite ↔ Intact (cuts mixedSteps) := by
  have hloaded : LoadAll noteTable twoNotes := List.Perm.refl _
  exact recovers_iff_intact mixedSteps_run "flat".toList hloaded

/-- After a crash between the files, `ensure` accepts an index of two vectors with an id
map of one chunk, from two builds. -/
theorem mixed_files_accepted :
    ∃ steps w p, Run (Attempts 1 "m".toList) (Site.start 1 "flat".toList) steps w ∧
      ensure twoNotes "m".toList ⟨{ dim := 1 }, w.process.disk⟩ = .ok () p ∧
      p.store.index.map (fun index => index.vectors.length) = some 2 ∧ p.store.idMap.length = 1 ∧
      w.indexBuild = some 1 ∧ w.mapBuild = some 0 := by
  have hreuses : Reuses (⟨{ dim := 1 }, mixedSite.process.disk⟩ : Process ℕ) "m".toList
      ⟨.flat, 1, [[2], [1]]⟩
      ⟨some "m".toList, 1, "flat".toList, ["a".toList],
        Dict.ofList (oneNote.map fun c => (c.chunkId, c.metadata))⟩ := by
    refine ⟨?_, ?_, rfl, rfl⟩ <;> rfl
  exact ⟨mixedSteps, mixedSite, _, mixedSteps_run, ensure_reuses hreuses, rfl, rfl, rfl, rfl⟩

end Mixed

end GroundedOps.Retrieval
