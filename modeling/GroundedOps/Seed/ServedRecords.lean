import GroundedOps.McpServer.RecordLookup
import GroundedOps.Seed.LoadRuns

/-!
# Seeded records behind the tools

A database of structured tables that obey their constraints is a state the analytics tools read.
After any sequence of seeding runs every record of the current dataset is fetched by its id, field
by field.
-/

namespace GroundedOps.Seed

open Python Program Relational
open McpServer (nul Cell State)

variable {F : Type} {float : ℚ → F}

/-! ### The tables as the tools read them -/

section Served

variable {D N : Type} (time : Datetime → D)

/-- A stored value as the driver returns it. -/
def cellOf : Option (Db.Value F) → Cell F D N
  | none => .value .null
  | some (.text s) => .value (.str s)
  | some (.int n) => .value (.int n)
  | some (.float x) => .value (.float x)
  | some (.time t) => .datetime (time t)

def cells (r : Row Text (Db.Value F)) : Sql.Record (Cell F D N) := fun c => cellOf time (r c)

theorem cellOf_inj (htime : Function.Injective time) {v w : Option (Db.Value F)}
    (h : (cellOf time v : Cell F D N) = cellOf time w) : v = w := by
  rcases v with _ | ⟨_ | _ | _ | _⟩ <;> rcases w with _ | ⟨_ | _ | _ | _⟩ <;>
    simp_all [cellOf, htime.eq_iff]

theorem schema_of_mem : ∀ t ∈ Db.models, Db.schema (F := F) t.1 = t.2.relation := by
  simp only [Db.models, List.forall_mem_cons, List.not_mem_nil, false_imp_iff, implies_true,
    and_true]
  exact ⟨rfl, rfl, rfl, rfl, rfl⟩

theorem models_structured : ∀ t ∈ Db.models, t.1 ∈ structuredTables := by decide

/-- The columns that are checked, and those of a key, are never null. -/
theorem checked_notNull : ∀ t ∈ Db.models, ∀ check ∈ t.2.checks, ∃ col ∈ t.2.columns,
    col.name = check.1 ∧ col.nullable = false := by decide

theorem key_notNull : ∀ t ∈ Db.models, ∀ key ∈ t.2.keys, ∀ c ∈ key, ∃ col ∈ t.2.columns,
    col.name = c ∧ col.nullable = false := by decide

theorem references_id : ∀ t ∈ Db.models, ∀ ref ∈ t.2.foreignKeys,
    (⟨ref.1, ref.2, "id".toList⟩ : Reference Text Text) ∈ (t.2.relation (F := F)).references := by
  intro t _ ref href
  exact List.mem_map_of_mem href

theorem admits_cellOf {v : Option (Db.Value F)} {col : Db.Column} (hnul : NulFree v)
    (h : v.elim col.nullable (fun v => v.hasType col.type) = true) :
    McpServer.Admits col (cellOf time v : Cell F D N) := by
  cases v with
  | none => exact h
  | some v =>
    cases v with
    | text s =>
      refine ⟨?_, nulFree_text.mp hnul⟩
      cases htype : col.type <;> simp [Db.Value.hasType, htype] at h ⊢
    | int n =>
      cases htype : col.type <;> simp [Db.Value.hasType, htype] at h
      exact ⟨htype, by omega, by omega⟩
    | float x =>
      cases htype : col.type <;> simp [Db.Value.hasType, htype] at h
      exact htype
    | time t =>
      cases htype : col.type <;> simp [Db.Value.hasType, htype] at h
      exact htype

section Fits

variable {rows : Text → List (Row Text (Db.Value F))} {t : Text × Db.Table}
  {r : Row Text (Db.Value F)}

/-- What the constraints say of the columns and of the checks of a row. -/
theorem fits_of_valid [DecidableEq F] (hvalid : Valid Db.schema rows) (ht : t ∈ Db.models)
    (hr : r ∈ rows t.1) :
    (∀ col ∈ t.2.columns, (r col.name).elim col.nullable (fun v => v.hasType col.type) = true) ∧
      ∀ check ∈ t.2.checks, (r check.1).all (fun v => v.isOneOf check.2) = true := by
  have hfits := hvalid.fits t.1 r hr
  rw [schema_of_mem t ht] at hfits
  obtain ⟨hcolumns, hchecks⟩ := (Bool.and_eq_true _ _).mp hfits
  exact ⟨List.all_eq_true.mp hcolumns, List.all_eq_true.mp hchecks⟩

theorem isSome_of_notNull [DecidableEq F] (hvalid : Valid Db.schema rows) (ht : t ∈ Db.models)
    (hr : r ∈ rows t.1) {col : Db.Column} (hcol : col ∈ t.2.columns)
    (hnull : col.nullable = false) : (r col.name).isSome := by
  have hfit := (fits_of_valid hvalid ht hr).1 col hcol
  cases hv : r col.name with
  | none =>
    rw [hv, Option.elim_none, hnull] at hfit
    cases hfit
  | some v => rfl

end Fits

/-- Valid tables without zero characters are a state for the tools. -/
def servedState [DecidableEq F] {rows : Text → List (Row Text (Db.Value F))}
    (hvalid : Valid Db.schema rows)
    (hnul : ∀ t ∈ structuredTables, ∀ r ∈ rows t, ∀ c, NulFree (r c))
    (htime : Function.Injective time) : State F D N where
  rows t := (rows t).map (cells time)
  admits t ht row hrow col hcol := by
    obtain ⟨r, hr, rfl⟩ := List.mem_map.mp hrow
    exact admits_cellOf time (hnul t.1 (models_structured t ht) r hr _)
      ((fits_of_valid hvalid ht hr).1 col hcol)
  checks t ht row hrow check hcheck := by
    obtain ⟨r, hr, rfl⟩ := List.mem_map.mp hrow
    obtain ⟨col, hcol, hname, hnull⟩ := checked_notNull t ht check hcheck
    have hone := (fits_of_valid hvalid ht hr).2 check hcheck
    obtain ⟨v, hv⟩ := Option.isSome_iff_exists.mp (isSome_of_notNull hvalid ht hr hcol hnull)
    rw [hname] at hv
    rw [hv] at hone
    cases v with
    | text s => exact ⟨s, List.contains_iff_mem.mp hone, by rw [cells, hv]; rfl⟩
    | int n => cases hone
    | float x => cases hone
    | time t => cases hone
  keys t ht key hkey := by
    have hunique := hvalid.unique t.1
    rw [schema_of_mem t ht] at hunique
    rw [List.pairwise_map]
    apply (hunique key hkey).imp_of_mem
    intro r r' hr hr' hclash
    by_contra hnone
    apply Bool.eq_false_iff.mp hclash
    apply clashes_iff.mpr
    intro c hc
    obtain ⟨col, hcol, rfl, hnull⟩ := key_notNull t ht key hkey c hc
    refine ⟨isSome_of_notNull hvalid ht hr hcol hnull, cellOf_inj (N := N) time htime ?_⟩
    by_contra hdiffer
    exact hnone ⟨_, hc, hdiffer⟩
  foreignKeys t ht row hrow ref href := by
    obtain ⟨r, hr, rfl⟩ := List.mem_map.mp hrow
    have hrefers := hvalid.refers t.1 r hr
    rw [schema_of_mem t ht] at hrefers
    cases hv : r ref.1 with
    | none => exact .inl (by rw [cells, hv]; rfl)
    | some v =>
      obtain ⟨target, htarget, hid⟩ := hrefers _ (references_id t ht ref href) v hv
      refine .inr ⟨cells time target, List.mem_map_of_mem htarget, ?_⟩
      rw [cells, cells, hv]
      exact congrArg (cellOf time) hid

theorem structured_allowed : ∀ t ∈ structuredTables, ∃ e ∈ Security.allowed, e.1 = t := by
  decide +kernel

/-- The rows of a table whose ids are texts are stored as they are inserted, with their ids. -/
theorem stored_batch {ds : FullDataset F} : ∀ b ∈ batches ds, b.1 ≠ Security.metricsDaily →
    stored ds b.1 = b.2 ∧ ∀ r ∈ b.2, ∃ id, r "id".toList = some (.text id) := by
  simp only [batches, List.forall_mem_cons, List.not_mem_nil, false_imp_iff, implies_true,
    and_true]
  refine ⟨fun _ => ⟨stored_slas, ?_⟩, fun _ => ⟨stored_customers, ?_⟩,
    fun _ => ⟨stored_incidents, ?_⟩, fun _ => ⟨stored_tickets, ?_⟩, fun h => absurd rfl h⟩
  · intro r hr
    obtain ⟨x, -, rfl⟩ := List.mem_map.mp hr
    exact ⟨x.id, rfl⟩
  · intro r hr
    obtain ⟨x, sla, -, rfl⟩ := exists_of_mem_customerRows hr
    exact ⟨x.id, rfl⟩
  · intro r hr
    obtain ⟨x, -, rfl⟩ := List.mem_map.mp hr
    exact ⟨x.id, rfl⟩
  · intro r hr
    obtain ⟨x, -, rfl⟩ := List.mem_map.mp hr
    exact ⟨x.id, rfl⟩

/-- What fetching a record from seeded tables returns. -/
structure Serves (backend : McpServer.Backend F D N) (py : Interpreter F)
    (cal : McpServer.Calendar F D N) (ds : FullDataset F) (s : State F D N) : Prop where
  found : ∀ b ∈ batches ds, b.1 ≠ Security.metricsDaily → ∀ r ∈ b.2,
    ∃ id, r "id".toList = some (.text id) ∧ ∀ log, ∃ log',
      (McpServer.Call.record b.1 id).runOn backend py cal s log =
        .ok (McpServer.recordJson cal b.1 (cells time r)) log'
  missing : ∀ b ∈ batches ds, b.1 ≠ Security.metricsDaily → ∀ id, nul ∉ id →
    (∀ r ∈ b.2, r "id".toList ≠ some (.text id)) → ∀ log, ∃ log',
      (McpServer.Call.record b.1 id).runOn backend py cal s log = .ok .null log'

theorem cellText_cellOf {v : Option (Db.Value F)} {id : Text} :
    McpServer.cellText (cellOf time v : Cell F D N) = some id ↔ v = some (.text id) := by
  rcases v with _ | ⟨_ | _ | _ | _⟩ <;> simp [cellOf, McpServer.cellText]

variable {backend : McpServer.Backend F D N} {py : Interpreter F} {cal : McpServer.Calendar F D N}

theorem serves_of_rows (htexts : McpServer.ComparesTexts backend) {ds : FullDataset F}
    {s : State F D N} (hrows : ∀ t ∈ structuredTables, s.rows t = (stored ds t).map (cells time))
    (hnul : ∀ t, ∀ r ∈ stored ds t, ∀ c, NulFree (r c)) : Serves time backend py cal ds s := by
  have hbatch : ∀ b ∈ batches ds, b.1 ≠ Security.metricsDaily →
      ∃ e ∈ Security.allowed, e.1 = b.1 ∧ s.rows e.1 = b.2.map (cells time) := by
    intro b hb hmetrics
    have hname := mem_names.mp (List.mem_map_of_mem hb)
    obtain ⟨e, he, htable⟩ := structured_allowed b.1 hname
    exact ⟨e, he, htable, by rw [htable, hrows _ hname, (stored_batch b hb hmetrics).1]⟩
  constructor
  · intro b hb hmetrics r hr
    obtain ⟨e, he, htable, hstate⟩ := hbatch b hb hmetrics
    obtain ⟨hstored, hids⟩ := stored_batch b hb hmetrics
    obtain ⟨id, hid⟩ := hids r hr
    refine ⟨id, hid, fun log => ?_⟩
    have hplain : nul ∉ id := hnul b.1 r (hstored ▸ hr) _ id hid
    rw [← htable] at hmetrics ⊢
    apply (McpServer.record_fetched htexts he hmetrics hplain log).1
    · rw [hstate]
      exact List.mem_map_of_mem hr
    · exact (cellText_cellOf time).mpr hid
  · intro b hb hmetrics id hplain hnone log
    obtain ⟨e, he, htable, hstate⟩ := hbatch b hb hmetrics
    rw [← htable] at hmetrics ⊢
    apply (McpServer.record_fetched htexts he hmetrics hplain log).2
    intro row hrow hid
    rw [hstate] at hrow
    obtain ⟨r, hr, rfl⟩ := List.mem_map.mp hrow
    exact hnone r hr ((cellText_cellOf time).mp hid)

variable {σ : Type} [DecidableEq F] {rng : Rng σ} {m : MetricRng rng F}

/-- After any sequence of seeding runs every record of the current dataset is fetched by its id
with the values it was generated with, and no other id fetches a record. -/
theorem seeded_records_served (hfaker : PlainFaker rng) (htime : Function.Injective time)
    (htexts : McpServer.ComparesTexts backend) {db : Database Text Text (Db.Value F)}
    (hdb : Holds none db) (attempts : List (ℤ × Bool)) {seed : ℤ}
    (hcurrent : currentSeed attempts = some seed) :
    ∃ ds, generateFull float rng m seed = .ok ds ∧ ∃ s : State F D N,
      (∀ t, s.rows t = ((attempts.foldl (attempt float rng m) db).rows t).map (cells time)) ∧
        Serves time backend py cal ds s := by
  obtain ⟨⟨current, hseed, hholds⟩, -⟩ := @foldl_attempt_holds F σ _ float rng m db hdb attempts
  obtain ⟨ds, hds, hfull⟩ := generateFull_ok float rng m seed
  rw [hcurrent, Option.map_some, hds] at hseed
  obtain ⟨ds', rfl, heq⟩ := Option.map_eq_some_iff.mp hseed.symm
  obtain rfl := Except.ok.inj heq
  obtain ⟨ds'', hds'', hgenerated⟩ := generateDataset_ok rng seed
  cases (generateDataset_of_full float rng m hds).symm.trans hds''
  have hnul := stored_nulFree hgenerated hfull (plainTexts_of_generated hfaker hds)
  have hcurrent : ∀ ds ∈ some ds', FullGenerated float ds := by
    intro ds hds
    obtain rfl := Option.mem_some_iff.mp hds
    exact hfull
  have hvalid := valid_of_holds hholds hcurrent
  have hrows := hholds.rows
  refine ⟨ds', hds, servedState time hvalid ?_ htime, fun _ => rfl,
    serves_of_rows time htexts ?_ hnul⟩
  · intro t ht r hr c
    rw [hrows t ht] at hr
    exact hnul t r hr c
  · intro t ht
    exact congrArg (List.map (cells time)) (hrows t ht)

end Served

/-! ### A seeded database -/

def utcCalendar : McpServer.Calendar Unit Datetime Unit where
  fromisoformat _ := none
  hasTz _ := true
  replaceUtc := id
  isoformat := Datetime.isoformat
  floatOfDecimal := id

theorem seeded_records_served_first :
    ∃ ds, generateFull (fun _ => ()) Eval.firstRng firstMetricRng 7 = .ok ds ∧
      ∃ s : State Unit Datetime Unit,
        (∀ t, s.rows t = (([(42, false), (9, false), (7, true)].foldl
          (attempt (fun _ => ()) Eval.firstRng firstMetricRng) migrated).rows t).map (cells id)) ∧
          Serves id (McpServer.countBackend Datetime) plainInterpreter utcCalendar ds s :=
  seeded_records_served id plainFaker_firstRng Function.injective_id
    McpServer.compares_countBackend ⟨fun _ _ => rfl, fun _ => rfl⟩ _ rfl

end GroundedOps.Seed
