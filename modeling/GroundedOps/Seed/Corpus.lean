import GroundedOps.Ingestion.Loaders
import GroundedOps.Seed.Generator

/-!
# Writing the corpus

`tickets.jsonl` holds one object in a line; every postmortem and runbook is a Markdown
file. What the loader makes of them has the name of the file for its document id.
-/

namespace GroundedOps.Seed

open Python Ingestion

section Write

variable {F : Type} (py : Interpreter F)

def ticketRecord (t : Ticket) : Json F :=
  .obj [("id".toList, .str t.id), ("title".toList, .str t.title), ("body".toList, .str t.body),
    ("customer_id".toList, t.customerId.elim .null .str), ("priority".toList, .str t.priority),
    ("status".toList, .str t.status), ("created_at".toList, .str t.createdAt.isoformat)]

def ticketLine (t : Ticket) : Text := (ticketRecord t).dumps py false

/-- The parts of a relative path. -/
def pathParts (relPath : Text) : List Text :=
  (relPath.splitOn '/').filter fun part => part ≠ [] ∧ part ≠ ".".toList

def removeOld (target : List Text) (t : Files) : Except Exn Files :=
  if t.contains target then fileOp (t.rmtree target) else .ok t

/-- An empty directory in place of what is there. -/
def recreate (target : List Text) (t : Files) : Except Exn Files := do
  let t ← removeOld target t
  fileOp (t.mkdirParents target)

/-- The name of the file of a document, without its ending. -/
def fileId (doc : Doc) : Text := stem ((pathParts doc.relPath).getLastD [])

def docPath (seedDir : List Text) (doc : Doc) : List Text := seedDir ++ pathParts doc.relPath

def writeDocs (seedDir : List Text) : List Doc → Files → ℕ → Except Exn (Files × ℕ)
  | [], t, written => .ok (t, written)
  | doc :: docs, t, written => do
    let t ← fileOp (t.write (docPath seedDir doc) doc.markdown)
    writeDocs seedDir docs t (written + 1)

def postmortemDir : Text := "postmortems".toList
def runbookDir : Text := "runbooks".toList
def ticketFile : Text := "tickets.jsonl".toList

/-- Write the unstructured corpus to the seed directory; returns the number of files written. -/
def writeCorpus (ds : Dataset) (seedDir : List Text) (t : Files) : Except Exn (Files × ℕ) := do
  let t ← fileOp (t.makeDirs seedDir)
  let t ← recreate (seedDir ++ [postmortemDir]) t
  let t ← recreate (seedDir ++ [runbookDir]) t
  let lines := ds.tickets.flatMap fun ticket => ticketLine py ticket ++ ['\n']
  let t ← fileOp (t.write (seedDir ++ [ticketFile]) lines)
  writeDocs seedDir (ds.postmortems ++ ds.runbooks) t 1

end Write

/-! ### What is written -/

theorem fileOp_eq_ok {α : Type} {r : Except FileError α} {a : α} :
    fileOp r = .ok a ↔ r = .ok a := by
  cases r with
  | ok b => simp [fileOp]
  | error e => cases e <;> simp [fileOp]

theorem get?_removeOld {target : List Text} {t t' : Files} (h : removeOld target t = .ok t')
    (q : List Text) : t'.get? q = if target <+: q then none else t.get? q := by
  unfold removeOld at h
  split_ifs at h with hcontains
  · exact FileTree.get?_rmtree (fileOp_eq_ok.mp h) q
  · cases h
    split_ifs with hinit
    · by_contra hsome
      have hq : t.contains q = true := by
        rw [FileTree.contains, Option.isSome_iff_ne_none]
        exact hsome
      apply hcontains
      by_cases hne : target = q
      · rwa [hne]
      · rw [FileTree.contains, FileTree.isDir_of_isPrefix hq hinit hne]
        rfl
    · rfl

theorem get?_recreate {target : List Text} {t t' : Files} (h : recreate target t = .ok t')
    (q : List Text) : t'.get? q =
      if q <+: target then some none else if target <+: q then none else t.get? q := by
  obtain ⟨u, hu, hmk⟩ := bind_eq_ok.mp h
  have hmk := fileOp_eq_ok.mp hmk
  rw [FileTree.mkdirParents] at hmk
  split_ifs at hmk
  rw [FileTree.get?_makeDirs hmk, get?_removeOld hu]

theorem get?_writeDocs_of_notMem {seedDir : List Text} {docs : List Doc} {t t' : Files}
    {written n : ℕ} (h : writeDocs seedDir docs t written = .ok (t', n)) {q : List Text}
    (hq : q ∉ docs.map (docPath seedDir)) : t'.get? q = t.get? q := by
  induction docs generalizing t written with
  | nil =>
    cases h
    rfl
  | cons doc docs ih =>
    obtain ⟨u, hu, hrest⟩ := bind_eq_ok.mp h
    rw [List.map_cons, List.mem_cons, not_or] at hq
    rw [ih hrest hq.2, FileTree.get?_write (fileOp_eq_ok.mp hu), if_neg hq.1]

theorem get?_writeDocs_of_mem {seedDir : List Text} {docs : List Doc} {t t' : Files}
    {written n : ℕ} (h : writeDocs seedDir docs t written = .ok (t', n))
    (hnodup : (docs.map (docPath seedDir)).Nodup) {doc : Doc} (hdoc : doc ∈ docs) :
    t'.get? (docPath seedDir doc) = some (some doc.markdown) := by
  induction docs generalizing t written with
  | nil => cases hdoc
  | cons d docs ih =>
    obtain ⟨u, hu, hrest⟩ := bind_eq_ok.mp h
    rw [List.map_cons, List.nodup_cons] at hnodup
    rcases List.mem_cons.mp hdoc with rfl | hdoc
    · rw [get?_writeDocs_of_notMem hrest hnodup.1, FileTree.get?_write (fileOp_eq_ok.mp hu),
        if_pos rfl]
    · exact ih hrest hnodup.2 hdoc

/-! ### When writing succeeds -/

theorem recreate_ok {p : List Text} {n : Text} {t : Files} (hp : t.IsDir p)
    (hn : t.get? (p ++ [n]) = none ∨ t.IsDir (p ++ [n])) :
    ∃ t', recreate (p ++ [n]) t = .ok t' := by
  have hold : ∃ u, removeOld (p ++ [n]) t = .ok u := by
    unfold removeOld
    rcases hn with hn | hn
    · exact ⟨t, if_neg (by simp [FileTree.contains, hn])⟩
    · obtain ⟨u, hu⟩ := FileTree.rmtree_ok (by simp) hn
      exact ⟨u, by rw [hu, if_pos (by rw [FileTree.contains, hn]; rfl)]; rfl⟩
  obtain ⟨u, hu⟩ := hold
  have hget := get?_removeOld hu
  have hnone : u.get? (p ++ [n]) = none := by rw [hget, if_pos List.prefix_rfl]
  have hdir : u.IsDir p := by
    have hlonger : ¬ p ++ [n] <+: p := fun h => by simpa using h.length_le
    rw [FileTree.IsDir, hget, if_neg hlonger]
    exact hp
  have hclear : u.Clear (p ++ [n]) := by
    intro q hq
    by_cases hqp : q = p ++ [n]
    · exact .inl (by rw [hqp, hnone])
    · have hinit : q <+: p := by simpa using FileTree.isPrefix_parent hq hqp
      by_cases hqd : q = p
      · exact .inr (by rw [hqd]; exact hdir)
      · exact .inr (FileTree.isDir_of_isPrefix (by rw [FileTree.contains, hdir]; rfl) hinit hqd)
  obtain ⟨t', ht'⟩ := FileTree.makeDirs_ok hclear
  have hfree : ¬ u.contains (p ++ [n]) = true := by simp [FileTree.contains, hnone]
  refine ⟨t', bind_eq_ok.mpr ⟨u, hu, ?_⟩⟩
  rw [FileTree.mkdirParents, if_neg hfree, ht']
  rfl

theorem writeDocs_ok {seedDir : List Text} {docs : List Doc} {t : Files} (written : ℕ)
    (h : ∀ d ∈ docs, t.IsDir (FileTree.parent (docPath seedDir d)) ∧
      ¬ t.IsDir (docPath seedDir d)) :
    ∃ r, writeDocs seedDir docs t written = .ok r := by
  induction docs generalizing t written with
  | nil => exact ⟨_, rfl⟩
  | cons d docs ih =>
    obtain ⟨hparent, hfile⟩ := h d (by simp)
    obtain ⟨u, hu⟩ := FileTree.write_ok hfile hparent d.markdown
    have hget := FileTree.get?_write hu
    have hrest : ∀ e ∈ docs, u.IsDir (FileTree.parent (docPath seedDir e)) ∧
        ¬ u.IsDir (docPath seedDir e) := by
      intro e he
      obtain ⟨heparent, hefile⟩ := h e (by simp [he])
      constructor
      · have hne : FileTree.parent (docPath seedDir e) ≠ docPath seedDir d := by
          intro heq
          rw [heq] at heparent
          exact hfile heparent
        rw [FileTree.IsDir, hget, if_neg hne]
        exact heparent
      · rw [FileTree.IsDir, hget]
        split_ifs
        · simp
        · exact hefile
    obtain ⟨r, hr⟩ := ih (written + 1) hrest
    exact ⟨r, bind_eq_ok.mpr ⟨u, fileOp_eq_ok.mpr hu, hr⟩⟩

/-- A document that is filed under a name in a directory, behind its title. -/
structure Filed (dir name : Text) (doc : Doc) : Prop where
  relPath : doc.relPath = dir ++ "/".toList ++ name ++ ".md".toList
  slash_notMem : '/' ∉ name
  name_ne_nil : name ≠ []
  title : Title doc.title
  heading : ∃ body, doc.markdown = "# ".toList ++ doc.title ++ '\n' :: body
  return_notMem : '\r' ∉ doc.markdown

theorem pathParts_file {dir name : Text} (hdir : '/' ∉ dir) (hne : dir ≠ [] ∧ dir ≠ ".".toList)
    (hname : '/' ∉ name) : pathParts (dir ++ "/".toList ++ name ++ ".md".toList) =
      [dir, name ++ ".md".toList] := by
  have hfile : '/' ∉ name ++ ".md".toList := by
    rw [List.mem_append, not_or]
    exact ⟨hname, by decide⟩
  have hlength : (name ++ ".md".toList).length = name.length + 3 := by simp
  have hfile' : name ++ ".md".toList ≠ [] ∧ name ++ ".md".toList ≠ ".".toList := by
    constructor
    · intro h
      rw [h] at hlength
      simp at hlength
    · intro h
      rw [h] at hlength
      simp at hlength
  have hsplit : (dir ++ "/".toList ++ name ++ ".md".toList).splitOn '/' =
      [dir, name ++ ".md".toList] := by
    have hjoin : dir ++ "/".toList ++ name ++ ".md".toList =
        ['/'].intercalate [dir, name ++ ".md".toList] := by simp [List.intercalate]
    rw [hjoin, List.splitOn_intercalate]
    · rw [List.forall_mem_cons, List.forall_mem_singleton]
      exact ⟨hdir, hfile⟩
    · simp
  rw [pathParts, hsplit]
  apply List.filter_eq_self.mpr
  rw [List.forall_mem_cons, List.forall_mem_singleton]
  exact ⟨decide_eq_true hne, decide_eq_true hfile'⟩

theorem Filed.docPath {dir name : Text} {doc : Doc} (h : Filed dir name doc) (hdir : '/' ∉ dir)
    (hne : dir ≠ [] ∧ dir ≠ ".".toList) (seedDir : List Text) :
    docPath seedDir doc = seedDir ++ [dir, name ++ ".md".toList] := by
  rw [Seed.docPath, h.relPath, pathParts_file hdir hne h.slash_notMem]

theorem Filed.fileId {dir name : Text} {doc : Doc} (h : Filed dir name doc) (hdir : '/' ∉ dir)
    (hne : dir ≠ [] ∧ dir ≠ ".".toList) : fileId doc = name := by
  rw [Seed.fileId, h.relPath, pathParts_file hdir hne h.slash_notMem]
  exact stem_md h.name_ne_nil

/-- The state of the files when the documents are about to be written. -/
structure Prepared (seedDir : List Text) (tickets : Text) (t : Files) : Prop where
  tickets : t.get? (seedDir ++ [ticketFile]) = some (some tickets)
  postmortems : t.IsDir (seedDir ++ [postmortemDir])
  runbooks : t.IsDir (seedDir ++ [runbookDir])
  no_postmortem : ∀ n, t.get? (seedDir ++ [postmortemDir, n]) = none
  no_runbook : ∀ n, t.get? (seedDir ++ [runbookDir, n]) = none

theorem prepared_of_steps {seedDir : List Text} {tickets : Text} {t1 t2 t3 u : Files}
    (h2 : recreate (seedDir ++ [postmortemDir]) t1 = .ok t2)
    (h3 : recreate (seedDir ++ [runbookDir]) t2 = .ok t3)
    (hu : t3.write (seedDir ++ [ticketFile]) tickets = .ok u) : Prepared seedDir tickets u := by
  have hwrite := FileTree.get?_write hu
  have hrunbooks := get?_recreate h3
  have hpostmortems := get?_recreate h2
  have hdirs : postmortemDir ≠ runbookDir := by decide
  have hfile : postmortemDir ≠ ticketFile ∧ runbookDir ≠ ticketFile := by decide
  refine ⟨?_, ?_, ?_, ?_, ?_⟩
  · rw [hwrite, if_pos rfl]
  · rw [FileTree.IsDir, hwrite, hrunbooks, hpostmortems]
    simp [List.prefix_append_right_inj, List.cons_prefix_cons, hdirs, hdirs.symm, hfile]
  · rw [FileTree.IsDir, hwrite, hrunbooks]
    simp [hfile]
  · intro n
    rw [hwrite, hrunbooks, hpostmortems]
    simp [List.prefix_append_right_inj, List.cons_prefix_cons, hdirs, hdirs.symm]
  · intro n
    rw [hwrite, hrunbooks]
    simp [List.prefix_append_right_inj, List.cons_prefix_cons]

theorem prepared_of_writeCorpus {F : Type} {py : Interpreter F} {ds : Dataset}
    {seedDir : List Text} {t t' : Files} {n : ℕ}
    (h : writeCorpus py ds seedDir t = .ok (t', n)) :
    ∃ u, Prepared seedDir (ds.tickets.flatMap fun ticket => ticketLine py ticket ++ ['\n']) u ∧
      writeDocs seedDir (ds.postmortems ++ ds.runbooks) u 1 = .ok (t', n) := by
  obtain ⟨t1, h1, h⟩ := bind_eq_ok.mp h
  obtain ⟨t2, h2, h⟩ := bind_eq_ok.mp h
  obtain ⟨t3, h3, h⟩ := bind_eq_ok.mp h
  obtain ⟨u, hu, h⟩ := bind_eq_ok.mp h
  exact ⟨u, prepared_of_steps h2 h3 (fileOp_eq_ok.mp hu), h⟩

/-- The documents of each kind have their own files in the directory of the kind. -/
structure Named (ds : Dataset) : Prop where
  postmortems : ∀ d ∈ ds.postmortems, Filed postmortemDir (fileId d) d
  runbooks : ∀ d ∈ ds.runbooks, Filed runbookDir (fileId d) d
  postmortems_nodup : (ds.postmortems.map fileId).Nodup
  runbooks_nodup : (ds.runbooks.map fileId).Nodup

/-- Nothing stands in the way of a corpus. -/
structure Vacant (seedDir : List Text) (t : Files) : Prop where
  clear : t.Clear seedDir
  postmortems : t.get? (seedDir ++ [postmortemDir]) = none ∨ t.IsDir (seedDir ++ [postmortemDir])
  runbooks : t.get? (seedDir ++ [runbookDir]) = none ∨ t.IsDir (seedDir ++ [runbookDir])
  tickets : ¬ t.IsDir (seedDir ++ [ticketFile])

theorem Prepared.writeDocs_ok {ds : Dataset} {seedDir : List Text} {tickets : Text} {t : Files}
    (h : Prepared seedDir tickets t) (hnamed : Named ds) :
    ∃ r, writeDocs seedDir (ds.postmortems ++ ds.runbooks) t 1 = .ok r := by
  have hparent : ∀ dir name : Text,
      FileTree.parent (seedDir ++ [dir, name]) = seedDir ++ [dir] := by
    intro dir name
    rw [← FileTree.parent_append_singleton (seedDir ++ [dir]) name, List.append_assoc]
    rfl
  apply Seed.writeDocs_ok
  intro d hd
  rcases List.mem_append.mp hd with hd | hd
  · rw [(hnamed.postmortems d hd).docPath (by decide) (by decide) seedDir, hparent]
    refine ⟨h.postmortems, ?_⟩
    rw [FileTree.IsDir, h.no_postmortem]
    nofun
  · rw [(hnamed.runbooks d hd).docPath (by decide) (by decide) seedDir, hparent]
    refine ⟨h.runbooks, ?_⟩
    rw [FileTree.IsDir, h.no_runbook]
    nofun

theorem writeCorpus_ok {F : Type} (py : Interpreter F) {ds : Dataset} {seedDir : List Text}
    {t : Files} (hnamed : Named ds) (h : Vacant seedDir t) :
    ∃ r, writeCorpus py ds seedDir t = .ok r := by
  have hlonger : ∀ n : Text, ¬ seedDir ++ [n] <+: seedDir := by
    intro n hinit
    simpa using hinit.length_le
  have hdirs : postmortemDir ≠ runbookDir := by decide
  have hfile : postmortemDir ≠ ticketFile ∧ runbookDir ≠ ticketFile := by decide
  obtain ⟨t1, h1⟩ := FileTree.makeDirs_ok h.clear
  have hget1 := FileTree.get?_makeDirs h1
  have hseed1 : t1.IsDir seedDir := by rw [FileTree.IsDir, hget1, if_pos List.prefix_rfl]
  have hpostmortems : t1.get? (seedDir ++ [postmortemDir]) = none ∨
      t1.IsDir (seedDir ++ [postmortemDir]) := by
    rw [FileTree.IsDir, hget1, if_neg (hlonger _)]
    exact h.postmortems
  obtain ⟨t2, h2⟩ := recreate_ok hseed1 hpostmortems
  have hget2 := get?_recreate h2
  have hseed2 : t2.IsDir seedDir := by
    rw [FileTree.IsDir, hget2, if_pos (List.prefix_append _ _)]
  have hrunbooks : t2.get? (seedDir ++ [runbookDir]) = none ∨
      t2.IsDir (seedDir ++ [runbookDir]) := by
    have hkeep : t2.get? (seedDir ++ [runbookDir]) = t.get? (seedDir ++ [runbookDir]) := by
      rw [hget2, hget1]
      simp [List.prefix_append_right_inj, hdirs, hdirs.symm, hlonger]
    rw [FileTree.IsDir, hkeep]
    exact h.runbooks
  obtain ⟨t3, h3⟩ := recreate_ok hseed2 hrunbooks
  have hget3 := get?_recreate h3
  have hseed3 : t3.IsDir (FileTree.parent (seedDir ++ [ticketFile])) := by
    rw [FileTree.parent_append_singleton, FileTree.IsDir, hget3,
      if_pos (List.prefix_append _ _)]
  have htickets : ¬ t3.IsDir (seedDir ++ [ticketFile]) := by
    have hkeep : t3.get? (seedDir ++ [ticketFile]) = t.get? (seedDir ++ [ticketFile]) := by
      rw [hget3, hget2, hget1]
      simp [List.prefix_append_right_inj, hfile, hfile.1.symm, hfile.2.symm, hlonger]
    rw [FileTree.IsDir, hkeep]
    exact h.tickets
  obtain ⟨u, hu⟩ := FileTree.write_ok htickets hseed3
    (ds.tickets.flatMap fun ticket => ticketLine py ticket ++ ['\n'])
  obtain ⟨r, hr⟩ := (prepared_of_steps h2 h3 hu).writeDocs_ok hnamed
  refine ⟨r, ?_⟩
  rw [writeCorpus, fileOp_eq_ok.mpr h1, ok_bind, h2, ok_bind, h3, ok_bind]
  dsimp only
  rw [fileOp_eq_ok.mpr hu, ok_bind, hr]

/-- What is at the paths of a corpus once it is written. -/
structure Written (ds : Dataset) (seedDir : List Text) (tickets : Text) (t : Files) : Prop where
  tickets : t.get? (seedDir ++ [ticketFile]) = some (some tickets)
  postmortemDir : t.IsDir (seedDir ++ [postmortemDir])
  runbookDir : t.IsDir (seedDir ++ [runbookDir])
  postmortems : ∀ d ∈ ds.postmortems,
    t.get? (seedDir ++ [Seed.postmortemDir, fileId d ++ ".md".toList]) =
      some (some d.markdown)
  no_other_postmortem : ∀ n, (n ∉ ds.postmortems.map fun d => fileId d ++ ".md".toList) →
    t.get? (seedDir ++ [Seed.postmortemDir, n]) = none
  runbooks : ∀ d ∈ ds.runbooks,
    t.get? (seedDir ++ [Seed.runbookDir, fileId d ++ ".md".toList]) = some (some d.markdown)
  no_other_runbook : ∀ n, (n ∉ ds.runbooks.map fun d => fileId d ++ ".md".toList) →
    t.get? (seedDir ++ [Seed.runbookDir, n]) = none

theorem nodup_paths {docs : List Doc} (h : (docs.map fileId).Nodup)
    (seedDir : List Text) (dir : Text) :
    (docs.map fun d => seedDir ++ [dir, fileId d ++ ".md".toList]).Nodup := by
  have hinj : Function.Injective fun n : Text => seedDir ++ [dir, n ++ ".md".toList] := by
    intro m n hmn
    simpa using hmn
  have hmap := h.map hinj
  rwa [List.map_map] at hmap

theorem written_of_writeCorpus {F : Type} {py : Interpreter F} {ds : Dataset}
    {seedDir : List Text} {t t' : Files} {n : ℕ}
    (hnamed : Named ds)
    (h : writeCorpus py ds seedDir t = .ok (t', n)) :
    Written ds seedDir (ds.tickets.flatMap fun ticket => ticketLine py ticket ++ ['\n']) t' := by
  obtain ⟨u, hu, hdocs⟩ := prepared_of_writeCorpus h
  have hpostmortem : ds.postmortems.map (docPath seedDir) = ds.postmortems.map fun d =>
      seedDir ++ [postmortemDir, fileId d ++ ".md".toList] :=
    List.map_congr_left fun d hd =>
      (hnamed.postmortems d hd).docPath (by decide) (by decide) seedDir
  have hrunbook : ds.runbooks.map (docPath seedDir) = ds.runbooks.map fun d =>
      seedDir ++ [runbookDir, fileId d ++ ".md".toList] :=
    List.map_congr_left fun d hd => (hnamed.runbooks d hd).docPath (by decide) (by decide) seedDir
  have hdirs : postmortemDir ≠ runbookDir := by decide
  have hnodup : ((ds.postmortems ++ ds.runbooks).map (docPath seedDir)).Nodup := by
    rw [List.map_append, hpostmortem, hrunbook]
    apply List.Nodup.append
    · exact nodup_paths hnamed.postmortems_nodup seedDir postmortemDir
    · exact nodup_paths hnamed.runbooks_nodup seedDir runbookDir
    · intro q hp hr
      obtain ⟨d, -, rfl⟩ := List.mem_map.mp hp
      obtain ⟨e, -, he⟩ := List.mem_map.mp hr
      simp [hdirs.symm] at he
  have hpresent : ∀ d ∈ ds.postmortems ++ ds.runbooks,
      t'.get? (docPath seedDir d) = some (some d.markdown) :=
    fun d hd => get?_writeDocs_of_mem hdocs hnodup hd
  have habsent : ∀ q, q ∉ (ds.postmortems ++ ds.runbooks).map (docPath seedDir) →
      t'.get? q = u.get? q := fun q hq => get?_writeDocs_of_notMem hdocs hq
  rw [List.map_append, hpostmortem, hrunbook] at habsent
  have hshort : ∀ file, t'.get? (seedDir ++ [file]) = u.get? (seedDir ++ [file]) := by
    intro file
    apply habsent
    simp
  refine ⟨?_, ?_, ?_, ?_, ?_, ?_, ?_⟩
  · rw [hshort, hu.tickets]
  · rw [FileTree.IsDir, hshort, hu.postmortems]
  · rw [FileTree.IsDir, hshort, hu.runbooks]
  · intro d hd
    rw [← (hnamed.postmortems d hd).docPath (by decide) (by decide) seedDir]
    exact hpresent d (by simp [hd])
  · intro n hn
    rw [habsent, hu.no_postmortem]
    simpa [hdirs.symm] using hn
  · intro d hd
    rw [← (hnamed.runbooks d hd).docPath (by decide) (by decide) seedDir]
    exact hpresent d (by simp [hd])
  · intro n hn
    rw [habsent, hu.no_runbook]
    simpa [hdirs] using hn

/-- What a ticket is as a source document. -/
def Ticket.sourceDoc (t : Ticket) : SourceDoc :=
  ⟨t.id, "ticket".toList, t.title, t.title ++ "\n\n".toList ++ t.body, false⟩

section Load

variable {F : Type} {py : Interpreter F}

theorem loadable_ticketRecord (t : Ticket) : (ticketRecord (F := F) t).Loadable := by
  have hkeys : (["id".toList, "title".toList, "body".toList, "customer_id".toList,
      "priority".toList, "status".toList, "created_at".toList] : List Text).Nodup := by decide
  refine ⟨hkeys, ?_⟩
  rw [Json.loadableMembers_iff]
  simp only [List.forall_mem_cons]
  refine ⟨trivial, trivial, trivial, ?_, trivial, trivial, trivial, nofun⟩
  cases t.customerId <;> trivial

theorem ticketDoc_ticketLine (t : Ticket) : ticketDoc py (ticketLine py t) = .ok t.sourceDoc := by
  rw [ticketDoc, ticketLine, Json.loads_dumps (loadable_ticketRecord t), ok_bind]
  rfl

theorem floatFree_ticketRecord (t : Ticket) : (ticketRecord (F := F) t).FloatFree := by
  rw [ticketRecord, Json.FloatFree, Json.floatFreeMembers_iff]
  simp only [List.forall_mem_cons]
  refine ⟨trivial, trivial, trivial, ?_, trivial, trivial, trivial, nofun⟩
  cases t.customerId <;> trivial

theorem ticketLine_opens (t : Ticket) : (ticketLine py t).head? = some '{' := by
  rw [ticketLine, ticketRecord, Json.dumps_obj, List.cons_append, List.head?_cons]

theorem loadMarkdownDir_written {t : Files} {seedDir : List Text} {dir : Text} {docs : List Doc}
    (sourceType : Text) (hdir : t.IsDir (seedDir ++ [dir]))
    (hfiled : ∀ d ∈ docs, Filed dir (fileId d) d) (hnodup : (docs.map fileId).Nodup)
    (hpresent : ∀ d ∈ docs, t.get? (seedDir ++ [dir, fileId d ++ ".md".toList]) =
      some (some d.markdown))
    (habsent : ∀ n, (n ∉ docs.map fun d => fileId d ++ ".md".toList) →
      t.get? (seedDir ++ [dir, n]) = none) :
    ∃ loaded, loadMarkdownDir t (seedDir ++ [dir]) sourceType = .ok loaded ∧
      loaded.Perm (docs.map fun d => loadedDoc sourceType (fileId d) d.title d.markdown) := by
  apply loadMarkdownDir_perm
  · rw [FileTree.contains, hdir]
    rfl
  · intro n
    rw [List.append_assoc, List.singleton_append, FileTree.contains]
    constructor
    · intro h
      by_contra hn
      rw [habsent n hn] at h
      cases h
    · intro hn
      obtain ⟨d, hd, rfl⟩ := List.mem_map.mp hn
      rw [hpresent d hd]
      rfl
  · exact hnodup
  · intro d hd
    have hd' := hfiled d hd
    obtain ⟨body, hbody⟩ := hd'.heading
    have hfile := hpresent d hd
    have hreturn := hd'.return_notMem
    rw [hbody] at hfile hreturn ⊢
    apply markdownDoc_eq_ok sourceType hd'.name_ne_nil hd'.title
    · rw [List.append_assoc, List.singleton_append, hfile]
    · exact hreturn

/-- Every ticket and every document is loaded once; the file name becomes the document id. -/
theorem loadCorpus_perm {ds : Dataset} {seedDir : List Text} {t t' : Files} {n : ℕ}
    (hnamed : Named ds)
    (h : writeCorpus py ds seedDir t = .ok (t', n)) :
    ∃ docs, loadCorpus py t' seedDir = .ok docs ∧ docs.Perm
      (ds.tickets.map Ticket.sourceDoc ++
        (ds.postmortems.map fun d =>
          loadedDoc "postmortem".toList (fileId d) d.title d.markdown) ++
        ds.runbooks.map fun d =>
          loadedDoc "runbook".toList (fileId d) d.title d.markdown) := by
  have hwritten := written_of_writeCorpus hnamed h
  have htickets : loadTickets py t' (seedDir ++ [ticketFile]) =
      .ok (ds.tickets.map Ticket.sourceDoc) := by
    apply loadTickets_eq_ok py hwritten.tickets
    · intro d _
      exact ⟨Json.printable_dumps py _ (floatFree_ticketRecord d), ticketLine_opens d⟩
    · intro d _
      exact ticketDoc_ticketLine d
  obtain ⟨postmortems, hpload, hpperm⟩ := loadMarkdownDir_written "postmortem".toList
    hwritten.postmortemDir hnamed.postmortems hnamed.postmortems_nodup hwritten.postmortems
    hwritten.no_other_postmortem
  obtain ⟨runbooks, hrload, hrperm⟩ := loadMarkdownDir_written "runbook".toList
    hwritten.runbookDir hnamed.runbooks hnamed.runbooks_nodup hwritten.runbooks
    hwritten.no_other_runbook
  refine ⟨ds.tickets.map Ticket.sourceDoc ++ postmortems ++ runbooks, ?_,
    (hpperm.append_left _).append hrperm⟩
  have hrun : loadCorpus py t' seedDir =
      loadTickets py t' (seedDir ++ [ticketFile]) >>= fun tickets =>
        loadMarkdownDir t' (seedDir ++ [postmortemDir]) "postmortem".toList >>= fun postmortems =>
          loadMarkdownDir t' (seedDir ++ [runbookDir]) "runbook".toList >>= fun runbooks =>
            .ok (tickets ++ postmortems ++ runbooks) := rfl
  rw [hrun, htickets, ok_bind, hpload, ok_bind, hrload, ok_bind]

end Load

end GroundedOps.Seed
