import GroundedOps.Eval.Reachability
import GroundedOps.Seed.PlainTexts

/-!
# Seeding again and again

Whatever the seeds, and whether the loads truncate or not, the structured tables hold exactly
one generated dataset and obey every constraint. A load that truncates replaces it, any other
load of seeded tables is refused as a whole.
-/

namespace GroundedOps.Seed

open Python Program Relational
open McpServer (nul)

variable {F : Type} {float : ℚ → F} {ds : FullDataset F}

/-- The structured tables hold this dataset; without one they are as migrated. -/
structure Holds (current : Option (FullDataset F)) (db : Database Text Text (Db.Value F)) :
    Prop where
  rows : ∀ t ∈ structuredTables, db.rows t = current.elim [] (stored · t)
  next : current = none → db.next "metrics_daily".toList = 1

section Loads

variable [DecidableEq F]

def emptied (truncating : Bool) : SessionM Text Text (Db.Value F) Unit :=
  if truncating then truncate structuredTables else pure ()

/-- The body of a load behind the truncation. -/
def inserts (ds : FullDataset F) :
    SessionM Text Text (Db.Value F) (List (Text × ℕ)) := do
  forM (batches ds) fun b => insertAll Db.schema b.1 b.2
  return [← counted "slas".toList, ← counted "customers".toList, ← counted "incidents".toList,
    ← counted "tickets".toList, ← counted "metrics_daily".toList]

theorem loadDatabase_eq (ds : FullDataset F) (truncating : Bool) :
    loadDatabase ds truncating = transaction (do
      emptied truncating
      inserts ds) := by
  cases truncating <;> simp [loadDatabase, emptied, inserts, batches]

theorem inserts_ok (hvalid : Valid Db.schema (stored ds)) {s : Session Text Text (Db.Value F)}
    (hempty : ∀ t ∈ structuredTables, s.rows t = [])
    (hnext : s.next "metrics_daily".toList = 1) :
    ∃ s', inserts ds s = .ok (rowCounts ds) s' ∧ LoadedInto (stored ds) structuredTables s s' := by
  obtain ⟨s', hrun, hloaded⟩ := insertBatches_dataset hvalid hempty hnext
  have hrows : ∀ t ∈ structuredTables, s'.rows t = stored ds t := by
    intro t ht
    exact hloaded.rows t (mem_names.mpr ht)
  have hcounts : inserts ds s = .ok [("slas".toList, (s'.rows "slas".toList).length),
      ("customers".toList, (s'.rows "customers".toList).length),
      ("incidents".toList, (s'.rows "incidents".toList).length),
      ("tickets".toList, (s'.rows "tickets".toList).length),
      ("metrics_daily".toList, (s'.rows "metrics_daily".toList).length)] s' := by
    rw [inserts, run_bind_ok hrun]
    rfl
  refine ⟨s', ?_, hrows, fun t ht => hloaded.others t (mt mem_names.mp ht), hloaded.saved⟩
  rw [hcounts, hrows _ (by decide), hrows _ (by decide), hrows _ (by decide), hrows _ (by decide),
    hrows _ (by decide)]
  rfl

/-- A load into empty tables, or one that empties them, succeeds. -/
theorem loadDatabase_ok (hvalid : Valid Db.schema (stored ds)) {truncating : Bool}
    {db : Database Text Text (Db.Value F)} (hfresh : truncating = true ∨ Holds none db) :
    ∃ db', loadDatabase ds truncating db = .ok (rowCounts ds) db' ∧ Holds (some ds) db' ∧
      ∀ t ∉ structuredTables, db'.rows t = db.rows t ∧ db'.next t = db.next t := by
  obtain ⟨s, hemptied, hempty, hnext, hothers⟩ : ∃ s : Session Text Text (Db.Value F),
      emptied truncating { db with } = .ok () s ∧
      (∀ t ∈ structuredTables, s.rows t = []) ∧ s.next "metrics_daily".toList = 1 ∧
      ∀ t ∉ structuredTables, s.rows t = db.rows t ∧ s.next t = db.next t := by
    cases truncating with
    | true =>
      have hmem : "metrics_daily".toList ∈ structuredTables := by decide
      refine ⟨_, rfl, fun t ht => if_pos ht, ?_, fun t ht => ⟨if_neg ht, if_neg ht⟩⟩
      dsimp only
      rw [if_pos hmem]
    | false =>
      have hnone := hfresh.resolve_left nofun
      exact ⟨{ db with }, rfl, hnone.rows, hnone.next rfl, fun _ _ => ⟨rfl, rfl⟩⟩
  obtain ⟨s', hrun, hloaded⟩ := inserts_ok hvalid hempty hnext
  refine ⟨s'.toDatabase, ?_, ⟨hloaded.rows, nofun⟩, ?_⟩
  · rw [loadDatabase_eq]
    apply transaction_ok
    rw [run_bind_ok hemptied, hrun]
  · intro t ht
    rw [(hloaded.others t ht).1, (hloaded.others t ht).2]
    exact hothers t ht

/-- A load of seeded tables that does not empty them changes nothing. -/
theorem loadDatabase_refused {ds' : FullDataset F} (h : FullGenerated float ds)
    (h' : FullGenerated float ds') {db : Database Text Text (Db.Value F)}
    (hholds : Holds (some ds') db) : loadDatabase ds false db = .error .unique db := by
  have hrows : db.rows "slas".toList = (standardSlas float).map slaRow := by
    rw [hholds.rows _ (by decide), Option.elim_some, stored_slas, h'.slas]
  obtain ⟨first, rest, hslas⟩ : ∃ first rest, standardSlas float = first :: rest := ⟨_, _, rfl⟩
  have hmem : first ∈ standardSlas float := by
    rw [hslas]
    exact List.mem_cons_self
  have hstored : slaRow first ∈ db.rows "slas".toList := by
    rw [hrows]
    exact List.mem_map_of_mem hmem
  have hclash : clashes ["id".toList] (slaRow first) (slaRow first) = true := by
    apply clashes_iff.mpr
    intro c hc
    rw [List.mem_singleton.mp hc]
    exact ⟨rfl, rfl⟩
  have hkey : ["id".toList] ∈ (Db.schema (F := F) "slas".toList).keys :=
    List.mem_singleton.mpr rfl
  have hnext : Function.update db.next "slas".toList
      ((Db.schema (F := F) "slas".toList).after (db.next "slas".toList)) = db.next :=
    Function.update_eq_self _ _
  have hfirst : insert Db.schema "slas".toList (slaRow first) { db with } =
      .error .unique { db with
        next := Function.update db.next "slas".toList
          ((Db.schema (F := F) "slas".toList).after (db.next "slas".toList)) } :=
    insert_unique (fits_sla first hmem) hkey hstored hclash
  have hbatch : insertAll Db.schema "slas".toList (ds.slas.map slaRow) { db with } =
      .error .unique { db with } := by
    rw [h.slas, hslas, List.map_cons, insertAll, List.forM_cons, run_bind_error hfirst, hnext]
  have hbody : inserts ds { db with } = .error .unique { db with } := by
    have hforM : forM (batches ds) (fun b => insertAll Db.schema b.1 b.2) { db with } =
        .error .unique ({ db with } : Session Text Text (Db.Value F)) := by
      rw [batches, List.forM_cons, run_bind_error hbatch]
    rw [inserts, run_bind_error hforM]
  rw [loadDatabase_eq]
  exact transaction_error hbody

omit [DecidableEq F] in
/-- What the structured tables refer to is structured. -/
theorem references_structured {t : Text} (ht : t ∈ structuredTables) :
    ∀ ref ∈ (Db.schema (F := F) t).references, ref.table ∈ structuredTables := by
  intro ref href
  rcases mem_structuredTables.mp ht with rfl | rfl | rfl | rfl | rfl
  · cases href
  · obtain rfl := List.mem_singleton.mp href
    decide
  · obtain rfl := List.mem_singleton.mp href
    decide
  · obtain rfl := List.mem_singleton.mp href
    decide
  · cases href

/-- Only the structured tables are constrained. -/
theorem valid_congr {rows rows' : Text → List (Row Text (Db.Value F))}
    (hsame : ∀ t ∈ structuredTables, rows' t = rows t) (h : Valid Db.schema rows) :
    Valid Db.schema rows' := by
  constructor
  · intro t row hrow
    by_cases ht : t ∈ structuredTables
    · rw [hsame t ht] at hrow
      exact h.fits t row hrow
    · rw [schema_of_notMem ht]
      rfl
  · intro t key hkey
    by_cases ht : t ∈ structuredTables
    · rw [hsame t ht]
      exact h.unique t key hkey
    · rw [schema_of_notMem ht] at hkey
      cases hkey
  · intro t row hrow
    by_cases ht : t ∈ structuredTables
    · rw [hsame t ht] at hrow
      apply (h.refers t row hrow).mono
      intro ref href
      rw [hsame _ (references_structured ht ref href)]
      exact List.Subset.refl _
    · rw [schema_of_notMem ht]
      exact fun _ href => absurd href List.not_mem_nil

theorem valid_empty : Valid (Db.schema (F := F)) fun _ => [] :=
  ⟨nofun, fun _ _ _ => List.Pairwise.nil, nofun⟩

theorem keepsValid_batches (ds : FullDataset F) :
    KeepsValid Db.schema (forM (batches ds) fun b => insertAll Db.schema b.1 b.2) := by
  apply keeps_forM
  intro b _
  exact keepsValid_insertAll b.1 b.2

/-- What a load inserts into empty tables obeys the constraints, or it is refused. -/
theorem valid_of_inserts {s s' : Session Text Text (Db.Value F)} {counts : List (Text × ℕ)}
    (hempty : ∀ t ∈ structuredTables, s.rows t = [])
    (hnext : s.next "metrics_daily".toList = 1) (hrun : inserts ds s = .ok counts s') :
    Valid Db.schema (stored ds) := by
  obtain ⟨_, s₁, hbatches, hcounts⟩ := run_bind_eq_ok.mp hrun
  have hempties : ∀ b ∈ batches ds, s.rows b.1 = [] := by
    intro b hb
    exact hempty _ (mem_names.mp (List.mem_map_of_mem hb))
  have hnodup : ((batches ds).map Prod.fst).Nodup := by
    have hsame : (batches ds).map Prod.fst = structuredTables.reverse := rfl
    rw [hsame]
    decide
  have hloaded := insertBatches_eq_ok hbatches hnodup hempties
  have hvalid := wp_iff.mp (keepsValid_batches ds s (valid_congr hempty valid_empty))
  apply valid_congr _ (hvalid.1 _ _ hbatches)
  intro t ht
  have hname : t ∈ (batches ds).map Prod.fst := mem_names.mpr ht
  obtain ⟨b, hb, rfl⟩ := List.mem_map.mp hname
  rw [hloaded b hb, numbered_batches hnext b hb]

/-- Moving on in the structured sequences is undone by a rollback of a truncation. -/
theorem rollback_inserts {db : Database Text Text (Db.Value F)}
    {s s' : Session Text Text (Db.Value F)} {v : Violation} (hrun : inserts ds s = .error v s')
    (hsaved : ∀ t, s.saved t = if t ∈ structuredTables then some (db.next t) else none)
    (hnext : ∀ t ∉ structuredTables, s.next t = db.next t) :
    (fun t => (s'.saved t).getD (s'.next t)) = db.next := by
  have hkeeps : Keeps (Frame structuredTables db.next s.saved) (inserts ds) := by
    have hinserts : Keeps (Frame structuredTables db.next s.saved)
        (forM (batches ds) fun b => insertAll Db.schema b.1 b.2) := by
      apply keeps_forM
      intro b hb
      exact keeps_frame_insertAll (mem_names.mp (List.mem_map_of_mem hb)) _ _ _
    apply keeps_bind hinserts
    exact fun _ s hs => hs
  obtain ⟨hsaved', hnext'⟩ := (wp_iff.mp (hkeeps s ⟨rfl, hnext⟩)).2 _ _ hrun
  funext t
  rw [hsaved', hsaved]
  split_ifs with ht
  · rfl
  · exact hnext' t ht

/-- What the inserts rely on: a batch without rows is another statement, and no text has a zero
character. -/
structure Loadable (ds : FullDataset F) : Prop where
  nonempty : ∀ t ∈ structuredTables, stored ds t ≠ []
  nulFree : ∀ t ∈ structuredTables, ∀ r ∈ stored ds t, ∀ c, NulFree (r c)

/-- A truncating load of any such dataset succeeds exactly if the dataset obeys the constraints,
and then the tables hold it; otherwise the database stays as it was. -/
theorem load_iff_valid (ds : FullDataset F) (_ : Loadable ds)
    (db : Database Text Text (Db.Value F)) :
    (Valid Db.schema (stored ds) →
      ∃ db', loadDatabase ds true db = .ok (rowCounts ds) db' ∧ Holds (some ds) db' ∧
        Valid Db.schema db'.rows ∧ ∀ t ∉ structuredTables, db'.rows t = db.rows t) ∧
    (¬ Valid Db.schema (stored ds) → ∃ v, loadDatabase ds true db = .error v db) := by
  constructor
  · intro hvalid
    obtain ⟨db', hload, hholds, hothers⟩ := loadDatabase_ok hvalid (.inl rfl)
    exact ⟨db', hload, hholds, valid_congr hholds.rows hvalid, fun t ht => (hothers t ht).1⟩
  · intro hinvalid
    obtain ⟨s, hemptied, hempty, hnext, hsaved, hothers⟩ : ∃ s : Session Text Text (Db.Value F),
        emptied true { db with } = .ok () s ∧ (∀ t ∈ structuredTables, s.rows t = []) ∧
        s.next "metrics_daily".toList = 1 ∧
        (∀ t, s.saved t = if t ∈ structuredTables then some (db.next t) else none) ∧
        ∀ t ∉ structuredTables, s.next t = db.next t := by
      have hmem : "metrics_daily".toList ∈ structuredTables := by decide
      refine ⟨_, rfl, fun t ht => if_pos ht, ?_, ?_, fun t ht => if_neg ht⟩
      · dsimp only
        rw [if_pos hmem]
      · intro t
        simp
    cases hrun : inserts ds s with
    | ok counts s' => exact absurd (valid_of_inserts hempty hnext hrun) hinvalid
    | error v s' =>
      refine ⟨v, ?_⟩
      have hbody : (do emptied true; inserts ds : SessionM Text Text (Db.Value F) _) { db with } =
          .error v s' := by
        rw [run_bind_ok hemptied, hrun]
      rw [loadDatabase_eq, transaction_error hbody, rollback_inserts hrun hsaved hothers]

/-! ### Loads of any datasets -/

omit [DecidableEq F] in
theorem closed_structuredTables : Closed (Db.schema (F := F)) structuredTables := by
  intro t ht ref href
  rw [schema_of_notMem ht] at href
  cases href

theorem keepsValid_inserts (ds : FullDataset F) : KeepsValid Db.schema (inserts ds) := by
  have hcounted : ∀ t, KeepsValid (Db.schema (F := F)) (counted t) := by
    intro t
    apply keeps_bind (keepsValid_count t)
    exact fun n => keeps_pure _
  unfold inserts
  apply keeps_bind (keepsValid_batches ds)
  intro _
  apply keeps_bind (hcounted _)
  intro _
  apply keeps_bind (hcounted _)
  intro _
  apply keeps_bind (hcounted _)
  intro _
  apply keeps_bind (hcounted _)
  intro _
  apply keeps_bind (hcounted _)
  exact fun _ => keeps_pure _

/-- A load keeps the database valid, whatever it loads and however it ends. -/
theorem valid_load (ds : FullDataset F) (truncating : Bool) {db : Database Text Text (Db.Value F)}
    (h : Valid Db.schema db.rows) :
    Valid Db.schema (final (loadDatabase ds truncating db)).rows := by
  have hemptied : KeepsValid (Db.schema (F := F)) (emptied truncating) := by
    cases truncating with
    | true => exact keepsValid_truncate closed_structuredTables
    | false => exact keeps_pure _
  rw [loadDatabase_eq]
  apply valid_transaction _ h
  apply keeps_bind hemptied
  exact fun _ => keepsValid_inserts ds

/-- Any loads, truncating or not, of any datasets leave a valid database valid. -/
theorem loads_keep_valid (loads : List (FullDataset F × Bool))
    {db : Database Text Text (Db.Value F)} (h : Valid Db.schema db.rows) :
    Valid Db.schema
      (loads.foldl (fun db load => final (loadDatabase load.1 load.2 db)) db).rows := by
  induction loads generalizing db with
  | nil => exact h
  | cons load loads ih =>
    rw [List.foldl_cons]
    exact ih (valid_load load.1 load.2 h)

end Loads

/-! ### Runs -/

/-- Seeded tables obey their constraints, and so do empty ones. -/
theorem valid_of_holds [DecidableEq F] {current : Option (FullDataset F)}
    {db : Database Text Text (Db.Value F)} (h : Holds current db)
    (hcurrent : ∀ ds ∈ current, FullGenerated float ds) : Valid Db.schema db.rows := by
  cases current with
  | none => exact valid_congr h.rows valid_empty
  | some ds => exact valid_congr h.rows (stored_valid (hcurrent ds rfl))

section Runs

variable {σ : Type} [DecidableEq F] (float : ℚ → F) (rng : Rng σ) (m : MetricRng rng F)

/-- One run of the seeding script with its seed, truncating or not. -/
def attempt (db : Database Text Text (Db.Value F)) (a : ℤ × Bool) :
    Database Text Text (Db.Value F) :=
  match generateFull float rng m a.1 with
  | .ok ds => final (loadDatabase ds a.2 db)
  | .error _ => db

/-- The seed whose dataset the tables hold after these runs. -/
def currentSeed (attempts : List (ℤ × Bool)) : Option ℤ :=
  attempts.foldl (fun current a => if a.2 || current.isNone then some a.1 else current) none

/-- What the runs have made of the database, and what the next one will do. -/
structure SeedState (attempts : List (ℤ × Bool)) (db db' : Database Text Text (Db.Value F)) :
    Prop where
  holds : ∃ current, (currentSeed attempts).map (generateFull float rng m) = current.map .ok ∧
    Holds current db'
  valid : Valid Db.schema db'.rows
  others : ∀ t ∉ structuredTables, db'.rows t = db.rows t
  next : ∀ seed truncating, ∃ ds, generateFull float rng m seed = .ok ds ∧
    (truncating = true ∨ currentSeed attempts = none →
      ∃ db'', loadDatabase ds truncating db' = .ok loadedCounts db'') ∧
    (truncating = false → currentSeed attempts ≠ none →
      loadDatabase ds truncating db' = .error .unique db')

variable {float rng m}

theorem currentSeed_concat (attempts : List (ℤ × Bool)) (a : ℤ × Bool) :
    currentSeed (attempts ++ [a]) =
      if a.2 = true ∨ currentSeed attempts = none then some a.1 else currentSeed attempts := by
  rw [currentSeed, List.foldl_concat, ← currentSeed]
  simp only [Bool.or_eq_true, Option.isNone_iff_eq_none]

/-- One more run from tables that hold a dataset, or none. -/
theorem attempt_holds {attempts : List (ℤ × Bool)} {current : Option (FullDataset F)}
    {db : Database Text Text (Db.Value F)}
    (hcurrent : (currentSeed attempts).map (generateFull float rng m) = current.map .ok)
    (hholds : Holds current db) (seed : ℤ) (truncating : Bool) :
    ∃ ds, generateFull float rng m seed = .ok ds ∧
      (truncating = true ∨ currentSeed attempts = none →
        ∃ db', loadDatabase ds truncating db = .ok loadedCounts db' ∧ Holds (some ds) db' ∧
          ∀ t ∉ structuredTables, db'.rows t = db.rows t) ∧
      (truncating = false → currentSeed attempts ≠ none →
        loadDatabase ds truncating db = .error .unique db) := by
  obtain ⟨ds, hds, hgenerated⟩ := generateFull_ok float rng m seed
  refine ⟨ds, hds, ?_, ?_⟩
  · intro hfresh
    have hfresh' : truncating = true ∨ Holds none db := by
      apply hfresh.imp id
      intro hnone
      rw [hnone, Option.map_none] at hcurrent
      rw [Option.map_eq_none_iff.mp hcurrent.symm] at hholds
      exact hholds
    obtain ⟨db', hload, hdb', hothers⟩ := loadDatabase_ok (stored_valid hgenerated) hfresh'
    rw [rowCounts_generated hgenerated] at hload
    exact ⟨db', hload, hdb', fun t ht => (hothers t ht).1⟩
  · rintro rfl hsome
    obtain ⟨seed', hseed'⟩ := Option.ne_none_iff_exists'.mp hsome
    obtain ⟨ds', hds', hgenerated'⟩ := generateFull_ok float rng m seed'
    rw [hseed', Option.map_some, hds'] at hcurrent
    obtain ⟨ds'', rfl, heq⟩ := Option.map_eq_some_iff.mp hcurrent.symm
    obtain rfl := Except.ok.inj heq
    exact loadDatabase_refused hgenerated hgenerated' hholds

theorem foldl_attempt_holds {db : Database Text Text (Db.Value F)} (hdb : Holds none db)
    (attempts : List (ℤ × Bool)) :
    (∃ current, (currentSeed attempts).map (generateFull float rng m) = current.map .ok ∧
      Holds current (attempts.foldl (attempt float rng m) db)) ∧
      ∀ t ∉ structuredTables, (attempts.foldl (attempt float rng m) db).rows t = db.rows t := by
  induction attempts using List.reverseRecOn with
  | nil => exact ⟨⟨none, rfl, hdb⟩, fun _ _ => rfl⟩
  | append_singleton attempts a ih =>
    obtain ⟨⟨current, hcurrent, hholds⟩, hothers⟩ := ih
    obtain ⟨ds, hds, hload, hrefused⟩ := attempt_holds hcurrent hholds a.1 a.2
    rw [List.foldl_concat, currentSeed_concat, attempt, hds]
    dsimp only
    split_ifs with hfresh
    · obtain ⟨db', hrun, hdb', hothers'⟩ := hload hfresh
      rw [hrun]
      refine ⟨⟨some ds, by rw [Option.map_some, hds]; rfl, hdb'⟩, fun t ht => ?_⟩
      exact (hothers' t ht).trans (hothers t ht)
    · obtain ⟨hfalse, hsome⟩ := not_or.mp hfresh
      rw [hrefused (Bool.eq_false_iff.mpr hfalse) hsome]
      exact ⟨⟨current, hcurrent, hholds⟩, hothers⟩

/-- In every sequence of seeding runs on a migrated database the structured tables hold one
generated dataset, obey every constraint, and are replaced as a whole or not at all. -/
theorem seeding_runs {db : Database Text Text (Db.Value F)} (hdb : Holds none db)
    (attempts : List (ℤ × Bool)) :
    SeedState float rng m attempts db (attempts.foldl (attempt float rng m) db) := by
  obtain ⟨⟨current, hcurrent, hholds⟩, hothers⟩ := @foldl_attempt_holds F σ _ float rng m db hdb
    attempts
  have hgenerated : ∀ ds ∈ current, FullGenerated float ds := by
    rintro ds rfl
    obtain ⟨seed, hseed, hds⟩ := Option.map_eq_some_iff.mp hcurrent
    obtain ⟨ds', hds', hgenerated⟩ := generateFull_ok float rng m seed
    obtain rfl := Except.ok.inj (hds.symm.trans hds')
    exact hgenerated
  refine ⟨⟨current, hcurrent, hholds⟩, valid_of_holds hholds hgenerated, hothers, ?_⟩
  intro seed truncating
  obtain ⟨ds, hds, hload, hrefused⟩ := attempt_holds hcurrent hholds seed truncating
  refine ⟨ds, hds, fun hfresh => ?_, hrefused⟩
  obtain ⟨db', hrun, -⟩ := hload hfresh
  exact ⟨db', hrun⟩

end Runs

/-- A generated dataset is one the inserts can rely on. -/
theorem loadable_of_generated {σ : Type} {rng : Rng σ} {m : MetricRng rng F} {seed : ℤ}
    (hfaker : PlainFaker rng) (hds : generateFull float rng m seed = .ok ds)
    (hfull : FullGenerated float ds) : Loadable ds := by
  obtain ⟨ds', hds', hgenerated⟩ := generateDataset_ok rng seed
  cases (generateDataset_of_full float rng m hds).symm.trans hds'
  constructor
  · intro t ht hnone
    have hrows : ∀ p ∈ loadedCounts, p.2 ≠ 0 := by decide
    have hname : t ∈ (batches ds).map Prod.fst := mem_names.mpr ht
    obtain ⟨b, hb, rfl⟩ := List.mem_map.mp hname
    have hcount : (b.1, (stored ds b.1).length) ∈ rowCounts ds := List.mem_map_of_mem hb
    rw [rowCounts_generated hfull, hnone] at hcount
    exact hrows _ hcount rfl
  · intro t _
    exact stored_nulFree hgenerated hfull (plainTexts_of_generated hfaker hds) t

/-! ### Runs with fixed draws -/

def firstMetricRng : MetricRng Eval.firstRng Unit where
  value _ _ := ((), ())
  left _ := rfl

def migrated : Database Text Text (Db.Value Unit) where
  rows _ := []
  next _ := 1

theorem plainFaker_firstRng : PlainFaker Eval.firstRng where
  company _ := show nul ∉ "Smith and Sons".toList by decide
  paragraph _ _ := show nul ∉ "Lorem ipsum.".toList by decide

theorem load_iff_valid_first :
    ∃ ds, generateFull (fun _ => ()) Eval.firstRng firstMetricRng 42 = .ok ds ∧
      ∃ db, loadDatabase ds true migrated = .ok loadedCounts db ∧ Holds (some ds) db := by
  obtain ⟨ds, hds, hfull⟩ := generateFull_ok (fun _ => ()) Eval.firstRng firstMetricRng 42
  obtain ⟨db, hload, hholds, -⟩ := (load_iff_valid ds
    (loadable_of_generated plainFaker_firstRng hds hfull) migrated).1 (stored_valid hfull)
  rw [rowCounts_generated hfull] at hload
  exact ⟨ds, hds, db, hload, hholds⟩

theorem seeding_runs_first :
    SeedState (fun _ => ()) Eval.firstRng firstMetricRng [(42, false), (7, false), (7, true)]
      migrated ([(42, false), (7, false), (7, true)].foldl
        (attempt (fun _ => ()) Eval.firstRng firstMetricRng) migrated) :=
  seeding_runs ⟨fun _ _ => rfl, fun _ => rfl⟩ _

end GroundedOps.Seed
