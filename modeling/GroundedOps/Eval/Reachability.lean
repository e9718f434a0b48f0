import GroundedOps.Eval.GoldSet

/-!
# Which documents keep their identity

Tickets and postmortems are loaded as the documents of the dataset. A runbook is loaded
under the name of its file, which is longer than its id, so no question about a runbook can
be answered from a document that it names.
-/

namespace GroundedOps.Eval

open Python Seed Ingestion Program

def docSource (d : Doc) : SourceDoc := ⟨d.docId, d.sourceType, d.title, d.markdown, true⟩

/-- What the loader should return for a dataset. -/
def sourceDocs (ds : Dataset) : List SourceDoc :=
  ds.tickets.map Ticket.sourceDoc ++ ds.postmortems.map docSource ++ ds.runbooks.map docSource

/-- What it returns. -/
def loadedDocs (ds : Dataset) : List SourceDoc :=
  ds.tickets.map Ticket.sourceDoc ++ ds.postmortems.map docSource ++
    ds.runbooks.map fun d => { docSource d with docId := fileId d }

/-- Every document that the items name is there. -/
def Answerable (items : List GoldItem) (docs : List SourceDoc) : Prop :=
  ∀ item ∈ items, ∀ id ∈ item.relevantDocIds, ∃ d ∈ docs, d.docId = id

variable {σ F : Type} {ds : Dataset}

theorem loadCorpus_generated {py : Interpreter F} {seedDir : List Text} {t t' : Files} {n : ℕ}
    (h : Generated ds) (hwrite : writeCorpus py ds seedDir t = .ok (t', n)) :
    ∃ docs, loadCorpus py t' seedDir = .ok docs ∧ docs.Perm (loadedDocs ds) := by
  obtain ⟨docs, hload, hperm⟩ := loadCorpus_perm h.named hwrite
  have hpostmortems : (ds.postmortems.map fun d =>
      loadedDoc "postmortem".toList (fileId d) d.title d.markdown) =
        ds.postmortems.map docSource := by
    apply List.map_congr_left
    intro d hd
    obtain ⟨hfile, htype, -, -⟩ := h.postmortem_fileId hd
    rw [hfile, docSource, htype]
    rfl
  have hrunbooks : (ds.runbooks.map fun d =>
      loadedDoc "runbook".toList (fileId d) d.title d.markdown) =
        ds.runbooks.map fun d => { docSource d with docId := fileId d } := by
    apply List.map_congr_left
    intro d hd
    obtain ⟨i, -, hbook, -⟩ := h.runbook_fileId hd
    rw [docSource, hbook.sourceType]
    rfl
  rw [hpostmortems, hrunbooks] at hperm
  exact ⟨docs, hload, hperm⟩

/-- The id of a runbook is the id of no loaded document. -/
theorem runbook_not_loaded (h : Generated ds) {d : Doc} (hd : d ∈ ds.runbooks) :
    ∀ s ∈ loadedDocs ds, s.docId ≠ d.docId := by
  obtain ⟨i, -, hbook, -⟩ := h.runbook_fileId hd
  intro s hs
  rw [hbook.docId]
  rcases List.mem_append.mp hs with hs | hs
  · rcases List.mem_append.mp hs with hs | hs
    · obtain ⟨t, ht, rfl⟩ := List.mem_map.mp hs
      obtain ⟨j, -, hid⟩ := exists_of_forall₂_right h.tickets ht
      intro heq
      have hid' : t.id = "RB-".toList ++ pad 3 (i + 1) := heq
      rw [hid, ticketId] at hid'
      simp at hid'
    · obtain ⟨e, he, rfl⟩ := List.mem_map.mp hs
      obtain ⟨-, -, -, inc, hinc, hid⟩ := h.postmortem_fileId he
      obtain ⟨j, -, hat⟩ := exists_of_forall₂_right h.incidents hinc
      intro heq
      have hid' : e.docId = "RB-".toList ++ pad 3 (i + 1) := heq
      rw [← hid, hat.id] at hid'
      simp at hid'
  · obtain ⟨e, he, rfl⟩ := List.mem_map.mp hs
    obtain ⟨j, -, -, hfile⟩ := h.runbook_fileId he
    intro heq
    have hfile' : fileId e = "RB-".toList ++ pad 3 (i + 1) := heq
    rw [hfile] at hfile'
    exact runbookFile_ne_id j i hfile'

/-- Of the documents of the dataset, those that are no runbooks are loaded. -/
theorem mem_loadedDocs_iff (h : Generated ds) {s : SourceDoc} (hs : s ∈ sourceDocs ds) :
    s ∈ loadedDocs ds ↔ s.sourceType ≠ "runbook".toList := by
  have hkinds : "ticket".toList ≠ "runbook".toList ∧ "postmortem".toList ≠ "runbook".toList := by
    decide
  rcases List.mem_append.mp hs with hs | hs
  · have hloaded : s ∈ loadedDocs ds := List.mem_append_left _ hs
    have htype : s.sourceType ≠ "runbook".toList := by
      rcases List.mem_append.mp hs with hs | hs
      · obtain ⟨t, -, rfl⟩ := List.mem_map.mp hs
        exact hkinds.1
      · obtain ⟨d, hd, rfl⟩ := List.mem_map.mp hs
        obtain ⟨-, htype, -, -⟩ := h.postmortem_fileId hd
        rw [docSource, htype]
        exact hkinds.2
    exact iff_of_true hloaded htype
  · obtain ⟨d, hd, rfl⟩ := List.mem_map.mp hs
    obtain ⟨i, -, hbook, -⟩ := h.runbook_fileId hd
    apply iff_of_false
    · intro hloaded
      exact runbook_not_loaded h hd _ hloaded rfl
    · intro htype
      exact htype hbook.sourceType

theorem exists_runbook (h : Generated ds) : ∃ d, d ∈ ds.runbooks := by
  have hlength := h.runbooks.length_eq
  rw [List.length_range] at hlength
  exact List.exists_mem_of_length_pos (by rw [← hlength]; decide)

theorem not_perm_sourceDocs (h : Generated ds) {docs : List SourceDoc}
    (hdocs : docs.Perm (loadedDocs ds)) : ¬ docs.Perm (sourceDocs ds) := by
  obtain ⟨d, hd⟩ := exists_runbook h
  have hmem : docSource d ∈ sourceDocs ds :=
    List.mem_append_right _ (List.mem_map.mpr ⟨d, hd, rfl⟩)
  intro hperm
  exact runbook_not_loaded h hd _ (hdocs.subset (hperm.symm.subset hmem)) rfl

/-- A question about a ticket or a postmortem names a loaded document. -/
theorem goldIds_reached (h : Generated ds) {postmortems runbooks : List Doc}
    {tickets : List Ticket} (hpostmortems : postmortems.Perm ds.postmortems)
    (hrunbooks : runbooks.Perm ds.runbooks) (htickets : tickets.Perm ds.tickets) {n : ℤ} :
    (∀ id ∈ goldIds postmortems runbooks tickets n, ∃ s ∈ loadedDocs ds, s.docId = id) ↔
      ¬ AsksForRunbooks n := by
  obtain ⟨chosen, -, hchosen, hdocs⟩ := h.postmortems
  have hplength : postmortems.length ≤ nPostmortems := by
    rw [hpostmortems.length_eq, ← hdocs.length_eq]
    exact hchosen
  have hrlength : runbooks.length = nRunbooks := by
    rw [hrunbooks.length_eq, ← h.runbooks.length_eq, List.length_range]
  have htlength : tickets.length = nTickets := by
    rw [htickets.length_eq, ← h.tickets.length_eq, List.length_range']
  constructor
  · intro hreached hasks
    obtain ⟨d, hd, hid⟩ := exists_runbook_mem_goldIds hplength hrlength htlength hasks
    obtain ⟨s, hs, heq⟩ := hreached _ hid
    exact runbook_not_loaded h (hrunbooks.subset hd) s hs heq
  · intro hasks id hid
    have hnone : sliceTo runbooks (n / 3) = [] := by
      by_contra hne
      exact hasks ((sliceTo_runbooks hrlength n).mp hne)
    have hid := sliceTo_subset _ _ hid
    rw [hnone, List.map_nil, List.append_nil] at hid
    rcases List.mem_append.mp hid with hid | hid
    · obtain ⟨d, hd, rfl⟩ := List.mem_map.mp hid
      have hd := hpostmortems.subset (sliceTo_subset _ _ hd)
      refine ⟨docSource d, ?_, rfl⟩
      exact List.mem_append_left _ (List.mem_append_right _ (List.mem_map.mpr ⟨d, hd, rfl⟩))
    · obtain ⟨t, ht, rfl⟩ := List.mem_map.mp hid
      have ht := htickets.subset (sliceTo_subset _ _ ht)
      refine ⟨t.sourceDoc, ?_, rfl⟩
      exact List.mem_append_left _ (List.mem_append_left _ (List.mem_map.mpr ⟨t, ht, rfl⟩))

theorem generated_of_ok {rng : Rng σ} {seed : ℤ} (h : generateDataset rng seed = .ok ds) :
    Generated ds := by
  obtain ⟨ds', hds', hgenerated⟩ := generateDataset_ok rng seed
  rw [h] at hds'
  cases hds'
  exact hgenerated

/-- The gold items are built, and can be answered unless some are about runbooks. -/
theorem buildGold_answerable {rng : Rng σ} {seed : ℤ} (hds : generateDataset rng seed = .ok ds)
    {docs : List SourceDoc} (hdocs : docs.Perm (loadedDocs ds)) (n : ℤ) :
    ∃ items, buildGold rng seed n = .ok items ∧
      (Answerable items docs ↔ ¬ AsksForRunbooks n) := by
  have h := generated_of_ok hds
  obtain ⟨items, s, hrun, postmortems, runbooks, tickets, hp, hr, ht, hids⟩ :=
    (goldItems_ids rng h n).run (rng.seeded (seed + 1))
  refine ⟨items, by rw [buildGold, hds, ok_bind, hrun], ?_⟩
  rw [← goldIds_reached h hp hr ht]
  have hitems : Answerable items docs ↔
      ∀ ids ∈ items.map GoldItem.relevantDocIds, ∀ id ∈ ids, ∃ d ∈ docs, d.docId = id := by
    simp only [Answerable, List.forall_mem_map]
  rw [hitems, hids]
  simp only [List.forall_mem_map, List.forall_mem_singleton, hdocs.mem_iff]

/-- Loading what was written gives the documents of the dataset, and the gold items ask for no
other ones. -/
def KeepsIdentity (rng : Rng σ) (py : Interpreter F) (seed : ℤ) (seedDir : List Text)
    (t : Files) : Prop :=
  ∀ ds t' written, generateDataset rng seed = .ok ds →
    writeCorpus py ds seedDir t = .ok (t', written) →
      ∃ docs, loadCorpus py t' seedDir = .ok docs ∧ docs.Perm (sourceDocs ds) ∧
        ∀ n items, buildGold rng seed n = .ok items → Answerable items docs

theorem not_keepsIdentity {rng : Rng σ} {py : Interpreter F} {seed : ℤ} {seedDir : List Text}
    {t t' : Files} {written : ℕ} (hds : generateDataset rng seed = .ok ds)
    (hwrite : writeCorpus py ds seedDir t = .ok (t', written)) :
    ¬ KeepsIdentity rng py seed seedDir t := by
  have h := generated_of_ok hds
  obtain ⟨docs, hload, hperm⟩ := loadCorpus_generated h hwrite
  intro hkeeps
  obtain ⟨docs', hload', hperm', -⟩ := hkeeps ds t' written hds hwrite
  rw [hload] at hload'
  cases hload'
  exact not_perm_sourceDocs h hperm hperm'

/-- For no seed every document keeps its identity: tickets and postmortems do, and no runbook
does. The gold items can all be answered for those numbers of items that leave the runbooks out. -/
theorem corpus_identity (rng : Rng σ) (py : Interpreter F) (seed : ℤ) (seedDir : List Text)
    (t t' : Files) (written : ℕ) (hds : generateDataset rng seed = .ok ds)
    (hwrite : writeCorpus py ds seedDir t = .ok (t', written)) :
    ¬ KeepsIdentity rng py seed seedDir t ∧
      ∃ docs, loadCorpus py t' seedDir = .ok docs ∧ docs.Perm (loadedDocs ds) ∧
        ¬ docs.Perm (sourceDocs ds) ∧
        (∀ s ∈ sourceDocs ds, s ∈ docs ↔ s.sourceType ≠ "runbook".toList) ∧
        ∀ n, ∃ items, buildGold rng seed n = .ok items ∧
          (Answerable items docs ↔ 0 ≤ n ∧ n ≤ 2 ∨ n ≤ -88) := by
  have h := generated_of_ok hds
  obtain ⟨docs, hload, hperm⟩ := loadCorpus_generated h hwrite
  refine ⟨not_keepsIdentity hds hwrite, docs, hload, hperm, not_perm_sourceDocs h hperm, ?_, ?_⟩
  · intro s hs
    rw [hperm.mem_iff]
    exact mem_loadedDocs_iff h hs
  · intro n
    obtain ⟨items, hitems, hanswer⟩ := buildGold_answerable hds hperm n
    refine ⟨items, hitems, hanswer.trans ?_⟩
    rw [AsksForRunbooks]
    omega

/-- Draws that always take the first choice. -/
def firstRng : Rng Unit where
  seeded _ := ()
  randbelow _ _ := (0, ())
  randbelow_lt _ _ h := h
  choices _ _ := (0, ())
  choices_lt _ _ h := List.length_pos_iff.mpr h
  chance _ _ := (false, ())
  daysOfYear _ := (10 * Datetime.day, ())
  lognormal _ _ := (Datetime.hour, ())
  metrics s := s
  company _ := ("Smith and Sons".toList, ())
  paragraph _ _ := ("Lorem ipsum.".toList, ())
  return_notMem_paragraph _ _ := by decide
  sentence _ _ := ("Lorem ipsum.".toList, ())
  return_notMem_sentence _ _ := by decide

theorem vacant_empty (seedDir : List Text) : Vacant seedDir FileTree.empty := by
  have hnone : ∀ file : Text, (FileTree.empty : Files).get? (seedDir ++ [file]) = none := by
    intro file
    rw [FileTree.get?_empty, if_neg (by simp)]
  refine ⟨?_, .inl (hnone _), .inl (hnone _), ?_⟩
  · intro q _
    rw [FileTree.IsDir, FileTree.get?_empty]
    split_ifs <;> simp
  · rw [FileTree.IsDir, hnone]
    nofun

theorem corpus_identity_first :
    ∃ ds t' written, generateDataset firstRng 42 = .ok ds ∧
      writeCorpus plainInterpreter ds ["data".toList, "seed".toList] FileTree.empty =
        .ok (t', written) ∧
      ∃ docs, loadCorpus plainInterpreter t' ["data".toList, "seed".toList] = .ok docs ∧
        docs.Perm (loadedDocs ds) ∧ ¬ docs.Perm (sourceDocs ds) := by
  obtain ⟨ds, hds, h⟩ := generateDataset_ok firstRng 42
  obtain ⟨⟨t', written⟩, hwrite⟩ := writeCorpus_ok plainInterpreter h.named
    (vacant_empty ["data".toList, "seed".toList])
  obtain ⟨-, docs, hload, hperm, hnot, -⟩ := corpus_identity firstRng plainInterpreter 42 _ _ t'
    written hds hwrite
  exact ⟨ds, t', written, hds, hwrite, docs, hload, hperm, hnot⟩

theorem identity_lost : ¬ KeepsIdentity firstRng plainInterpreter 42
    ["data".toList, "seed".toList] FileTree.empty := by
  obtain ⟨ds, hds, h⟩ := generateDataset_ok firstRng 42
  obtain ⟨⟨t', written⟩, hwrite⟩ := writeCorpus_ok plainInterpreter h.named
    (vacant_empty ["data".toList, "seed".toList])
  exact not_keepsIdentity hds hwrite

end GroundedOps.Eval
