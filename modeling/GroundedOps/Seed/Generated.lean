import GroundedOps.Seed.Corpus

/-!
# What is generated

Whatever the random draws, the identifiers are numbered, every postmortem is about an
incident of the dataset, and every document starts with its title as a heading.
-/

namespace GroundedOps.Seed

open Python Ingestion Program

section Draws

variable {σ α : Type} (rng : Rng σ)

theorem yields_draw {f : σ → α × σ} {P : α → Prop} (h : ∀ s, P (f s).1) :
    Yields P (draw f : Gen σ α) := fun s => h s

theorem returns_draw (f : σ → α × σ) : Returns (draw f : Gen σ α) := fun _ => trivial

theorem choice_mem {xs : List α} (h : xs ≠ []) : Yields (· ∈ xs) (choice rng xs) := by
  have hlength : 0 < xs.length := List.length_pos_iff.mpr h
  have hindex : Yields (· < xs.length) (draw (rng.randbelow xs.length)) :=
    yields_draw fun s => rng.randbelow_lt xs.length s hlength
  apply yields_bind hindex
  intro i hi
  rw [List.getElem?_eq_getElem hi]
  exact yields_pure (List.getElem_mem hi)

theorem weighted_mem {weights : List (α × ℕ)} (h : weights ≠ []) :
    Yields (· ∈ weights.map Prod.fst) (weighted rng weights) := by
  have hindex : Yields (· < (weights.map Prod.snd).length)
      (draw (rng.choices (weights.map Prod.snd))) :=
    yields_draw fun s => rng.choices_lt _ s (by simpa using h)
  apply yields_bind hindex
  intro i hi
  rw [List.length_map] at hi
  rw [List.getElem?_eq_getElem hi]
  exact yields_pure (List.mem_map_of_mem (List.getElem_mem hi))

theorem randint_returns (a b : ℕ) : Returns (randint rng a b) :=
  yields_of_returns (returns_draw _) fun _ => returns_pure _

theorem past_returns : Returns (past rng) := by
  apply yields_of_returns (returns_draw _)
  intro days
  apply yields_of_returns (randint_returns rng _ _)
  intro seconds
  exact returns_pure _

theorem optional_returns {p : Gen σ α} (h : Returns p) (condition : Prop)
    [Decidable condition] : Returns (optional condition p) := by
  unfold optional
  split_ifs
  · rw [map_eq_pure_bind]
    exact yields_of_returns h fun _ => returns_pure _
  · exact returns_pure none

theorem swap_perm (xs : List α) (i j : ℕ) : (swap xs i j).Perm xs := by
  unfold swap
  split
  · rename_i x y hx hy
    obtain ⟨hi, rfl⟩ := List.getElem?_eq_some_iff.mp hx
    obtain ⟨hj, rfl⟩ := List.getElem?_eq_some_iff.mp hy
    exact List.set_set_perm hi hj
  · exact List.Perm.refl xs

/-- Shuffling keeps every element. -/
theorem shuffle_perm (xs : List α) : Yields (·.Perm xs) (shuffle rng xs) := by
  apply yields_foldlM
  · intro ys i _ hys
    apply yields_of_returns (returns_draw _)
    intro j
    exact yields_pure ((swap_perm ys i j).trans hys)
  · exact List.Perm.refl xs

end Draws

/-! ### Records -/

section Records

variable {σ : Type} (rng : Rng σ)

def severities : List Text := severityWeights.map Prod.fst
def categories : List Text := rootCauseWeights.map Prod.fst

theorem customers_ne_nil : Yields (· ≠ []) (customers rng) := by
  have hcustomer : ∀ i ∈ List.range' 1 nCustomers, Yields (fun _ => True) (customer rng i) := by
    intro i _
    apply yields_of_returns (weighted_mem rng (by decide)).returns
    intro plan
    apply yields_of_returns (randint_returns rng _ _)
    intro days
    apply yields_of_returns (returns_draw _)
    intro name
    apply yields_of_returns (choice_mem rng (by decide)).returns
    intro region
    exact returns_pure _
  apply (yields_mapM _ hcustomer).mono
  rintro customers hcustomers rfl
  exact absurd hcustomers.length_eq (by decide)

/-- What the records take from the fixed vocabularies. -/
structure IncidentAt (i : ℕ) (inc : Incident) : Prop where
  id : inc.id = "INC-".toList ++ pad 4 i
  severity : inc.severity ∈ severities
  service : inc.service ∈ services
  category : inc.rootCauseCategory ∈ categories

theorem resolution_returns {severity : Text} (h : severity ∈ severities) :
    Returns (resolution rng severity) := by
  have hmean : ∀ s ∈ severities, (severityMttrMin.lookup s).isSome := by decide
  obtain ⟨mean, hlookup⟩ := Option.isSome_iff_exists.mp (hmean severity h)
  rw [resolution, hlookup]
  exact yields_of_returns (returns_draw _) fun _ => returns_pure _

theorem incident_at {customers : List Customer} (h : customers ≠ []) (i : ℕ) :
    Yields (IncidentAt i) (incident rng customers i) := by
  apply yields_bind (weighted_mem rng (by decide))
  intro severity hseverity
  apply yields_of_returns (past_returns rng)
  intro opened
  apply yields_of_returns (optional_returns (returns_draw _) _)
  intro isOpen
  apply yields_of_returns (optional_returns (resolution_returns rng hseverity) _)
  intro minutes
  apply yields_bind (choice_mem rng (by decide))
  intro service hservice
  apply yields_bind (weighted_mem rng (by decide))
  intro category hcategory
  apply yields_of_returns (returns_draw _)
  intro known
  apply yields_of_returns (optional_returns (choice_mem rng h).returns _)
  intro customer
  exact yields_pure ⟨rfl, hseverity, hservice, hcategory⟩

theorem ticket_id {customers : List Customer} (h : customers ≠ []) (i : ℕ) :
    Yields (fun t => t.id = "TCK-".toList ++ pad 4 i) (ticket rng customers i) := by
  apply yields_of_returns (choice_mem rng (by decide)).returns
  intro service
  apply yields_of_returns (choice_mem rng (by decide)).returns
  intro symptom
  apply yields_of_returns (weighted_mem rng (by decide)).returns
  intro priority
  apply yields_of_returns (weighted_mem rng (by decide)).returns
  intro status
  apply yields_of_returns (past_returns rng)
  intro created
  apply yields_of_returns (optional_returns (randint_returns rng _ _) _)
  intro hours
  apply yields_of_returns (returns_draw _)
  intro known
  apply yields_of_returns (optional_returns (choice_mem rng h).returns _)
  intro customer
  apply yields_of_returns (returns_draw _)
  intro paragraph
  apply yields_of_returns (returns_draw _)
  intro workaround
  exact yields_pure rfl

/-- A postmortem has the id of its incident, and the incident its title and its file. -/
structure PostmortemOf (inc : Incident) (d : Doc) : Prop where
  docId : d.docId = inc.id
  sourceType : d.sourceType = "postmortem".toList
  filed : Filed postmortemDir inc.id d

/-- The name of the file of a runbook goes on behind its id. -/
def runbookFile (i : ℕ) : Text :=
  "RB-".toList ++ pad 3 (i + 1) ++ "-".toList ++ slug (topics.getD (i % topics.length) [])

theorem runbookFile_inj : Function.Injective runbookFile := by
  intro i j h
  simp only [runbookFile, List.append_assoc] at h
  have hpad : i + 1 = j + 1 := pad_append_inj rfl (List.append_cancel_left h)
  omega

/-- No runbook's file has the name of a runbook's id. -/
theorem runbookFile_ne_id (i j : ℕ) : runbookFile i ≠ "RB-".toList ++ pad 3 (j + 1) := by
  intro h
  simp only [runbookFile, List.append_assoc] at h
  have hmem : '-' ∈ pad 3 (j + 1) := by
    rw [← List.append_cancel_left h]
    simp
  exact notMem_pad rfl 3 (j + 1) hmem

structure RunbookAt (i : ℕ) (d : Doc) : Prop where
  docId : d.docId = "RB-".toList ++ pad 3 (i + 1)
  sourceType : d.sourceType = "runbook".toList
  filed : Filed runbookDir (runbookFile i) d

theorem unlines_heading (title : Text) (ls : List Text) :
    ∃ body, unlines (("# ".toList ++ title) :: ls) = "# ".toList ++ title ++ '\n' :: body :=
  ⟨unlines ls, by simp [unlines]⟩

theorem return_notMem_unlines {ls : List Text} (h : ∀ l ∈ ls, '\r' ∉ l) : '\r' ∉ unlines ls := by
  intro hr
  obtain ⟨l, hl, hmem⟩ := List.mem_flatMap.mp hr
  rcases List.mem_append.mp hmem with hmem | hmem
  · exact h l hl hmem
  · exact absurd hmem (by decide)

theorem return_notMem_fmt (dt : Option Datetime) : '\r' ∉ fmt dt := by
  cases dt with
  | none => exact by decide
  | some dt => exact dt.return_notMem_strftime

theorem sentence_yields (n : ℕ) : Yields ('\r' ∉ ·) (draw (rng.sentence n)) :=
  yields_draw (rng.return_notMem_sentence n)

theorem paragraph_yields (n : ℕ) : Yields ('\r' ∉ ·) (draw (rng.paragraph n)) :=
  yields_draw (rng.return_notMem_paragraph n)

/-- Numbers stand within a line. -/
theorem plain_pad (width n : ℕ) : Plain (pad width n) := by
  have hdigits : ∀ code ∈ lineEnds, ¬ (48 ≤ code ∧ code ≤ 57) := by decide
  intro c hc hend
  have hdigit := isDigit_of_mem_pad hc
  simp only [Char.isDigit, Bool.and_eq_true, decide_eq_true_eq, ge_iff_le,
    UInt32.le_iff_toNat_le] at hdigit
  exact hdigits _ hend hdigit

theorem printable_services : ∀ s ∈ services, Json.Printable s := by decide
theorem printable_severities : ∀ s ∈ severities, Json.Printable s := by decide
theorem printable_categories : ∀ s ∈ categories, Json.Printable s := by decide
theorem printable_symptoms : ∀ s ∈ symptoms, Json.Printable s := by decide +kernel
theorem printable_topics : ∀ s ∈ topics, Json.Printable s := by decide +kernel

theorem printable_lower {s : Text} (h : Json.Printable s) : Json.Printable (lower s) := by
  intro c hc
  obtain ⟨d, hd, rfl⟩ := List.mem_map.mp hc
  have hrange := h d hd
  unfold Char.toLower
  split
  · rename_i hupper
    have hle : d.val.toNat ≤ 90 := UInt32.le_iff_toNat_le.mp hupper.2
    change 0x20 ≤ (d.val + 32).toNat ∧ (d.val + 32).toNat ≤ 0x7e
    have hsum : (d.val + 32).toNat = d.val.toNat + 32 :=
      (UInt32.toNat_add d.val 32).trans (Nat.mod_eq_of_lt (by simp; omega))
    have hge : 0x20 ≤ d.val.toNat := hrange.1
    omega
  · exact hrange

theorem slash_notMem_pad (width n : ℕ) : '/' ∉ pad width n := notMem_pad rfl width n

theorem title_postmortem {i : ℕ} {inc : Incident} (h : IncidentAt i inc) :
    Title ("Postmortem ".toList ++ inc.id ++ ": ".toList ++ inc.service ++ " ".toList ++
      inc.severity) := by
  have hservice := plain_of_printable (printable_services _ h.service)
  have hseverity := plain_of_printable (printable_severities _ h.severity)
  have hends : ∀ s ∈ severities, s ≠ [] ∧ s.getLast?.any isSpace = false := by decide
  obtain ⟨hne, hlast⟩ := hends inc.severity h.severity
  refine ⟨?_, ?_, ?_, ?_⟩
  · simp only [plain_append, h.id, plain_pad, hservice, hseverity, and_true]
    decide
  · rintro c ⟨⟩
    rfl
  · intro c hc
    rw [List.getLast?_append_of_ne_nil _ hne] at hc
    rwa [Option.mem_def.mp hc] at hlast
  · simp

theorem postmortemDoc_of {i : ℕ} {inc : Incident} (h : IncidentAt i inc) :
    Yields (PostmortemOf inc) (postmortemDoc rng inc) := by
  apply yields_bind (choice_mem rng (by decide))
  intro symptom hsymptom
  apply yields_of_returns (randint_returns rng _ _)
  intro detect
  apply yields_of_returns (randint_returns rng _ _)
  intro mitigate
  apply yields_bind (sentence_yields rng 18)
  intro summary hsummary
  apply yields_bind (paragraph_yields rng 4)
  intro cause hcause
  apply yields_bind (sentence_yields rng 10)
  intro remedy hremedy
  apply yields_bind (sentence_yields rng 14)
  intro impact himpact
  apply yields_pure
  have hid : '/' ∉ inc.id := by
    rw [h.id, List.mem_append, not_or]
    exact ⟨by decide, slash_notMem_pad _ _⟩
  refine ⟨rfl, rfl, ⟨rfl, hid, ?_, title_postmortem h, unlines_heading _ _, ?_⟩⟩
  · simp [h.id]
  · have hsymptom := return_notMem_of_printable (printable_symptoms _ hsymptom)
    have hservice := return_notMem_of_printable (printable_services _ h.service)
    have hseverity := return_notMem_of_printable (printable_severities _ h.severity)
    have hcategory := return_notMem_of_printable (printable_categories _ h.category)
    have hpad : '\r' ∉ pad 4 i := notMem_pad rfl 4 i
    apply return_notMem_unlines
    simp only [List.forall_mem_cons, List.mem_append, h.id, hpad, hsymptom, hservice, hseverity,
      hcategory, hsummary, hcause, hremedy, himpact, return_notMem_fmt, or_false, false_or]
    and_intros
    all_goals decide

theorem title_runbook {topic service : Text} (htopic : topic ∈ topics)
    (hservice : service ∈ services) :
    Title ("Runbook: ".toList ++ topic ++ " (".toList ++ service ++ ")".toList) := by
  have htopic := plain_of_printable (printable_topics _ htopic)
  have hservice := plain_of_printable (printable_services _ hservice)
  refine ⟨?_, ?_, ?_, ?_⟩
  · simp only [plain_append, htopic, hservice, and_true]
    decide
  · rintro c ⟨⟩
    rfl
  · intro c hc
    rw [List.getLast?_append_of_ne_nil _ (by simp)] at hc
    obtain rfl : ')' = c := by simpa using hc
    rfl
  · simp

theorem getD_mem {α : Type} {xs : List α} (h : xs ≠ []) (i : ℕ) (d : α) :
    xs.getD (i % xs.length) d ∈ xs := by
  have hlt : i % xs.length < xs.length := Nat.mod_lt i (List.length_pos_iff.mpr h)
  rw [List.getD_eq_getElem?_getD, List.getElem?_eq_getElem hlt, Option.getD_some]
  exact List.getElem_mem hlt

theorem runbook_path (docId name : Text) :
    "runbooks/".toList ++ docId ++ "-".toList ++ name ++ ".md".toList =
      runbookDir ++ "/".toList ++ (docId ++ "-".toList ++ name) ++ ".md".toList := by
  have hdir : "runbooks/".toList = runbookDir ++ "/".toList := by decide
  rw [hdir]
  simp only [List.append_assoc]

theorem runbook_at (i : ℕ) : Yields (RunbookAt i) (runbook rng i) := by
  have htopic : topics.getD (i % topics.length) [] ∈ topics := getD_mem (by decide) i []
  have hservice : services.getD (i % services.length) [] ∈ services := getD_mem (by decide) i []
  apply yields_bind (sentence_yields rng 16)
  intro context hcontext
  apply yields_bind (sentence_yields rng 10)
  intro step1 hstep1
  apply yields_bind (sentence_yields rng 10)
  intro step3 hstep3
  apply yields_bind (sentence_yields rng 10)
  intro step5 hstep5
  apply yields_bind (sentence_yields rng 12)
  intro check hcheck
  apply yields_pure
  refine ⟨?_, ?_, ⟨?_, ?_, ?_, ?_, ?_, ?_⟩⟩
  · rfl
  · rfl
  · exact runbook_path _ _
  · have hslug : ∀ t ∈ topics, '/' ∉ slug t := by decide +kernel
    simp only [runbookFile, List.mem_append, slash_notMem_pad, hslug _ htopic, or_false]
    decide
  · simp [runbookFile]
  · exact title_runbook htopic hservice
  · exact unlines_heading _ _
  · have hprintable := printable_topics _ htopic
    have htopic := return_notMem_of_printable hprintable
    have hlower := return_notMem_of_printable (printable_lower hprintable)
    have hservice := return_notMem_of_printable (printable_services _ hservice)
    apply return_notMem_unlines
    simp only [List.forall_mem_cons, List.mem_append, htopic, hlower, hservice, hcontext, hstep1,
      hstep3, hstep5, hcheck, or_false, false_or]
    and_intros
    all_goals decide

def ticketId (i : ℕ) : Text := "TCK-".toList ++ pad 4 i

/-- What every generated dataset is like. -/
structure Generated (ds : Dataset) : Prop where
  incidents : List.Forall₂ IncidentAt (List.range' 1 nIncidents) ds.incidents
  tickets : List.Forall₂ (fun i t => t.id = ticketId i) (List.range' 1 nTickets) ds.tickets
  postmortems : ∃ chosen, chosen.Subperm ds.incidents ∧ chosen.length ≤ nPostmortems ∧
    List.Forall₂ PostmortemOf chosen ds.postmortems
  runbooks : List.Forall₂ RunbookAt (List.range nRunbooks) ds.runbooks

theorem postmortems_of {incidents : List Incident}
    (h : List.Forall₂ IncidentAt (List.range' 1 nIncidents) incidents) :
    Yields (fun docs => ∃ chosen, chosen.Subperm incidents ∧ chosen.length ≤ nPostmortems ∧
      List.Forall₂ PostmortemOf chosen docs) (postmortems rng incidents) := by
  apply yields_bind (shuffle_perm rng _)
  intro candidates hcandidates
  have hchosen : (candidates.take nPostmortems).Subperm incidents :=
    (List.take_sublist _ _).subperm.trans (hcandidates.subperm.trans List.filter_sublist.subperm)
  have hdoc : ∀ inc ∈ candidates.take nPostmortems,
      Yields (PostmortemOf inc) (postmortemDoc rng inc) := by
    intro inc hinc
    obtain ⟨i, -, hi⟩ := exists_of_forall₂_right h (hchosen.subset hinc)
    exact postmortemDoc_of rng hi
  apply (yields_mapM _ hdoc).mono
  intro docs hdocs
  exact ⟨_, hchosen, List.length_take_le _ _, hdocs⟩

theorem dataset_generated : Yields Generated (dataset rng) := by
  apply yields_bind (customers_ne_nil rng)
  intro customers hcustomers
  apply yields_bind (yields_mapM _ fun i _ => incident_at rng hcustomers i)
  intro incidents hincidents
  apply yields_bind (yields_mapM _ fun i _ => ticket_id rng hcustomers i)
  intro tickets htickets
  apply yields_of_returns (returns_draw _)
  intro _
  apply yields_bind (postmortems_of rng hincidents)
  intro postmortems hpostmortems
  apply yields_bind (yields_mapM _ fun i _ => runbook_at rng i)
  intro runbooks hrunbooks
  exact yields_pure ⟨hincidents, htickets, hpostmortems, hrunbooks⟩

/-- Every seed gives a dataset. -/
theorem generateDataset_ok (seed : ℤ) : ∃ ds, generateDataset rng seed = .ok ds ∧ Generated ds := by
  obtain ⟨ds, s, hds, h⟩ := (dataset_generated rng).run (rng.seeded seed)
  exact ⟨ds, by rw [generateDataset, hds], h⟩

end Records

namespace Generated

variable {ds : Dataset} (h : Generated ds)

include h

theorem nodup_incidents : (ds.incidents.map Incident.id).Nodup := by
  have hids := map_eq_map_of_forall₂ (h.incidents.imp fun i inc hi => hi.id)
  have hinj : Function.Injective fun i => "INC-".toList ++ pad 4 i :=
    fun i j hij => pad_inj (List.append_cancel_left hij)
  rw [hids]
  exact List.Nodup.map hinj List.nodup_range'

/-- A postmortem is filed under its id. -/
theorem postmortem_fileId {d : Doc} (hd : d ∈ ds.postmortems) :
    fileId d = d.docId ∧ d.sourceType = "postmortem".toList ∧
      Filed postmortemDir (fileId d) d ∧ ∃ inc ∈ ds.incidents, inc.id = d.docId := by
  obtain ⟨chosen, hsub, -, hdocs⟩ := h.postmortems
  obtain ⟨inc, hinc, hpost⟩ := exists_of_forall₂_right hdocs hd
  have hfile := hpost.filed.fileId (by decide) (by decide)
  rw [hfile]
  exact ⟨hpost.docId.symm, hpost.sourceType, hpost.filed, inc, hsub.subset hinc, hpost.docId.symm⟩

theorem nodup_postmortems : (ds.postmortems.map Doc.docId).Nodup := by
  obtain ⟨chosen, hsub, -, hdocs⟩ := h.postmortems
  have hids := map_eq_map_of_forall₂ (hdocs.imp fun inc d hd => hd.docId)
  obtain ⟨chosen', hperm, hsublist⟩ := hsub
  rw [hids, ← (hperm.map Incident.id).nodup_iff]
  exact h.nodup_incidents.sublist (hsublist.map Incident.id)

/-- The file of a runbook has a longer name than its id. -/
theorem runbook_fileId {d : Doc} (hd : d ∈ ds.runbooks) :
    ∃ i < nRunbooks, RunbookAt i d ∧ fileId d = runbookFile i := by
  obtain ⟨i, hi, hbook⟩ := exists_of_forall₂_right h.runbooks hd
  exact ⟨i, List.mem_range.mp hi, hbook, hbook.filed.fileId (by decide) (by decide)⟩

theorem named : Named ds where
  postmortems d hd := (h.postmortem_fileId hd).2.2.1
  runbooks d hd := by
    obtain ⟨i, -, hbook, hfile⟩ := h.runbook_fileId hd
    rw [hfile]
    exact hbook.filed
  postmortems_nodup := by
    have hids : ds.postmortems.map fileId = ds.postmortems.map Doc.docId :=
      List.map_congr_left fun d hd => (h.postmortem_fileId hd).1
    rw [hids]
    exact h.nodup_postmortems
  runbooks_nodup := by
    have hfiles := map_eq_map_of_forall₂ (h.runbooks.imp fun i d hd =>
      hd.filed.fileId (by decide) (by decide))
    rw [hfiles]
    exact List.Nodup.map runbookFile_inj List.nodup_range

end Generated

end GroundedOps.Seed
