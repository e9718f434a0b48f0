import GroundedOps.Db.Schema
import GroundedOps.Seed.Tables

/-!
# Loading the dataset

One transaction truncates the structured tables, if asked to, and inserts the rows of a
dataset in the order of their references. Every generated dataset obeys the constraints, so a
truncating load succeeds from any state; a second load that does not truncate is refused as a
whole.
-/

namespace GroundedOps.Seed

open Python Program Relational

variable {F : Type}

def slaRow (s : Sla F) : Row Text (Db.Value F) :=
  Db.row [("id".toList, some (.text s.id)), ("name".toList, some (.text s.name)),
    ("tier".toList, some (.text s.tier)),
    ("target_resolution_minutes".toList, some (.int s.targetResolutionMinutes)),
    ("uptime_target_pct".toList, some (.float s.uptimeTargetPct))]

def customerRow (c : Customer) (slaId : Text) : Row Text (Db.Value F) :=
  Db.row [("id".toList, some (.text c.id)), ("name".toList, some (.text c.name)),
    ("plan".toList, some (.text c.plan)), ("region".toList, some (.text c.region)),
    ("sla_id".toList, some (.text slaId)), ("created_at".toList, some (.time c.createdAt))]

def incidentRow (i : Incident) : Row Text (Db.Value F) :=
  Db.row [("id".toList, some (.text i.id)), ("severity".toList, some (.text i.severity)),
    ("service".toList, some (.text i.service)), ("opened_at".toList, some (.time i.openedAt)),
    ("resolved_at".toList, i.resolvedAt.map .time),
    ("root_cause_category".toList, some (.text i.rootCauseCategory)),
    ("customer_id".toList, i.customerId.map .text)]

def ticketRow (t : Ticket) : Row Text (Db.Value F) :=
  Db.row [("id".toList, some (.text t.id)), ("title".toList, some (.text t.title)),
    ("body".toList, some (.text t.body)), ("customer_id".toList, t.customerId.map .text),
    ("priority".toList, some (.text t.priority)), ("status".toList, some (.text t.status)),
    ("created_at".toList, some (.time t.createdAt)),
    ("resolved_at".toList, t.resolvedAt.map .time)]

def metricRow (x : MetricDaily F) : Row Text (Db.Value F) :=
  Db.row [("date".toList, some (.time x.date)), ("service".toList, some (.text x.service)),
    ("metric_name".toList, some (.text x.metricName)), ("value".toList, some (.float x.value))]

/-- Truncated together; no other table refers to them. -/
def structuredTables : List Text :=
  ["metrics_daily".toList, "tickets".toList, "incidents".toList, "customers".toList,
    "slas".toList]

/-- The rows of a dataset, in the order in which they are inserted. -/
def batches (ds : FullDataset F) : List (Text × List (Row Text (Db.Value F))) :=
  [("slas".toList, ds.slas.map slaRow),
    ("customers".toList, List.zipWith customerRow ds.customers ds.slaIds),
    ("incidents".toList, ds.incidents.map incidentRow),
    ("tickets".toList, ds.tickets.map ticketRow),
    ("metrics_daily".toList, ds.metrics.map metricRow)]

section Load

variable [DecidableEq F]

/-- The number of rows of a table, under its name. -/
def counted (t : Text) : SessionM Text Text (Db.Value F) (Text × ℕ) := do
  let n ← count t
  return (t, n)

/-- `load_database` -/
def loadDatabase (ds : FullDataset F) (truncating : Bool) :
    EStateM Violation (Database Text Text (Db.Value F)) (List (Text × ℕ)) :=
  transaction do
    if truncating then truncate structuredTables
    insertAll Db.schema "slas".toList (ds.slas.map slaRow)
    insertAll Db.schema "customers".toList (List.zipWith customerRow ds.customers ds.slaIds)
    insertAll Db.schema "incidents".toList (ds.incidents.map incidentRow)
    insertAll Db.schema "tickets".toList (ds.tickets.map ticketRow)
    insertAll Db.schema "metrics_daily".toList (ds.metrics.map metricRow)
    return [← counted "slas".toList, ← counted "customers".toList, ← counted "incidents".toList,
      ← counted "tickets".toList, ← counted "metrics_daily".toList]

end Load

/-- The tables that hold this dataset and nothing else. -/
def stored (ds : FullDataset F) (t : Text) : List (Row Text (Db.Value F)) :=
  ((batches ds).lookup t).elim [] ((Db.schema t).numbered 1)

/-! ### The rows fit their tables -/

theorem fits_sla {float : ℚ → F} : ∀ s ∈ standardSlas float, Db.sla.fits (slaRow s) = true := by
  simp only [standardSlas, List.forall_mem_cons, List.not_mem_nil, false_imp_iff, implies_true,
    and_true]
  exact ⟨rfl, rfl, rfl⟩

theorem fits_customer (c : Customer) (slaId : Text) :
    Db.customer.fits (customerRow (F := F) c slaId) = true := rfl

theorem fits_incident {i : Incident} (h : i.severity ∈ severities) :
    Db.incident.fits (incidentRow (F := F) i) = true := by
  have hcheck : Db.incident.fits (incidentRow (F := F) i) =
      (Db.priorities.contains i.severity && true) := by
    obtain ⟨_, _, _, _, resolved, _, customer⟩ := i
    cases resolved <;> cases customer <;> rfl
  have hpriorities : ∀ s ∈ severities, Db.priorities.contains s = true := by decide
  rw [hcheck, hpriorities _ h]
  rfl

theorem fits_ticket {t : Ticket} (h : t.priority ∈ severities)
    (hstatus : t.status ∈ statuses.map Prod.fst) :
    Db.ticket.fits (ticketRow (F := F) t) = true := by
  have hcheck : Db.ticket.fits (ticketRow (F := F) t) = (Db.priorities.contains t.priority &&
      (["open".toList, "pending".toList, "resolved".toList, "closed".toList].contains t.status &&
        true)) := by
    obtain ⟨_, _, _, customer, _, _, _, resolved⟩ := t
    cases resolved <;> cases customer <;> rfl
  have hpriorities : ∀ s ∈ severities, Db.priorities.contains s = true := by decide
  have hstatuses : ∀ s ∈ statuses.map Prod.fst,
      ["open".toList, "pending".toList, "resolved".toList, "closed".toList].contains s = true := by
    decide
  rw [hcheck, hpriorities _ h, hstatuses _ hstatus]
  rfl

theorem fits_metric (x : MetricDaily F) {n : ℕ} (h : n ≤ 2147483647) :
    Db.metricDaily.fits (Db.numberedId n (metricRow x)) = true := by
  have hcheck : Db.metricDaily.fits (Db.numberedId n (metricRow x)) =
      (decide ((-2147483648 : ℤ) ≤ n ∧ (n : ℤ) ≤ 2147483647) && true && true) := rfl
  rw [hcheck, Bool.and_true, Bool.and_true, decide_eq_true_eq]
  omega

/-! ### The tables of a dataset -/

theorem metricKeys_eq : metricKeys = (List.range 365 ×ˢ services ×ˢ metricNames).map fun p =>
    ((reference - 365 * Datetime.day) / Datetime.day * Datetime.day + p.1 * Datetime.day, p.2) := by
  unfold metricKeys
  simp only [SProd.sprod, List.product, List.map_flatMap, List.map_map, Function.comp_def]

theorem nodup_metricKeys : metricKeys.Nodup := by
  rw [metricKeys_eq]
  apply List.Nodup.map
  · rintro ⟨day, key⟩ ⟨day', key'⟩ heq
    obtain ⟨hday, rfl⟩ := Prod.mk.inj heq
    have hpos : 0 < Datetime.day := by decide
    have hsame : day = day' := Nat.eq_of_mul_eq_mul_right hpos (Nat.add_left_cancel hday)
    rw [hsame]
  · exact List.nodup_range.product ((by decide : services.Nodup).product (by decide))

theorem length_metricKeys : metricKeys.length = 8760 := by
  rw [metricKeys_eq, List.length_map, List.length_product, List.length_product, List.length_range]
  rfl

section Stored

variable {ds : FullDataset F}

theorem stored_slas : stored ds "slas".toList = ds.slas.map slaRow :=
  numbered_of_serial_none rfl 1 _

theorem stored_customers :
    stored ds "customers".toList = List.zipWith customerRow ds.customers ds.slaIds :=
  numbered_of_serial_none rfl 1 _

theorem stored_incidents : stored ds "incidents".toList = ds.incidents.map incidentRow :=
  numbered_of_serial_none rfl 1 _

theorem stored_tickets : stored ds "tickets".toList = ds.tickets.map ticketRow :=
  numbered_of_serial_none rfl 1 _

theorem stored_metrics : stored ds "metrics_daily".toList =
    ((ds.metrics.zipIdx 1).map fun p => Db.numberedId p.2 (metricRow p.1)) := by
  have hnumbered : stored ds "metrics_daily".toList =
      ((ds.metrics.map metricRow).zipIdx 1).map fun p => Db.numberedId p.2 p.1 :=
    numbered_of_serial_some rfl 1 _
  rw [hnumbered, List.zipIdx_map, List.map_map]
  rfl

theorem mem_structuredTables {t : Text} : t ∈ structuredTables ↔ t = "metrics_daily".toList ∨
    t = "tickets".toList ∨ t = "incidents".toList ∨ t = "customers".toList ∨
      t = "slas".toList := by
  simp only [structuredTables, List.mem_cons, List.not_mem_nil, or_false]

theorem lookup_models {t : Text} (h : t ∉ structuredTables) : Db.models.lookup t = none := by
  have hnames : ∀ n ∈ Db.models.map Prod.fst, n ∈ structuredTables := by decide
  rw [List.lookup_eq_none_iff]
  intro p hp
  rw [bne_iff_ne]
  rintro rfl
  exact h (hnames _ (List.mem_map_of_mem hp))

theorem schema_of_notMem {t : Text} (h : t ∉ structuredTables) :
    Db.schema (F := F) t = Db.unconstrained := by
  rw [Db.schema, lookup_models h]
  rfl

/-! ### The constraints hold -/

/-- Rows numbered by the ids of a column without repetition do not clash in that column. -/
theorem pairwise_of_ids {column : Text} {rows : List (Row Text (Db.Value F))} [DecidableEq F]
    {ids : List Text} (hids : rows.map (fun r => r column) = ids.map fun i => some (.text i))
    (hnodup : ids.Nodup) : rows.Pairwise fun r r' => clashes [column] r r' = false := by
  apply pairwise_of_nodup
  have hkeys : (rows.map fun r => [column].map r) =
      (ids.map fun i => some (Db.Value.text (F := F) i)).map fun v => [v] := by
    rw [← hids, List.map_map]
    rfl
  rw [hkeys, List.map_map]
  apply hnodup.map
  intro i j hij
  simpa using hij

theorem refers_of_ids {rows : Text → List (Row Text (Db.Value F))} {column table : Text}
    {row : Row Text (Db.Value F)} {ids : List Text}
    (hids : (rows table).map (fun r => r "id".toList) = ids.map fun i => some (.text i))
    (hrow : ∀ v, row column = some v → ∃ i ∈ ids, v = .text i) :
    Refers rows [⟨column, table, "id".toList⟩] row := by
  intro ref href v hv
  obtain rfl := List.mem_singleton.mp href
  obtain ⟨i, hi, rfl⟩ := hrow v hv
  have hmem : some (Db.Value.text i) ∈ (rows table).map (fun r => r "id".toList) := by
    rw [hids]
    exact List.mem_map_of_mem hi
  obtain ⟨r, hr, hid⟩ := List.mem_map.mp hmem
  exact ⟨r, hr, hid⟩

theorem incident_ids : (stored ds "incidents".toList).map (fun r => r "id".toList) =
    (ds.incidents.map Incident.id).map fun i => some (.text i) := by
  rw [stored_incidents, List.map_map, List.map_map]
  rfl

theorem ticket_ids : (stored ds "tickets".toList).map (fun r => r "id".toList) =
    (ds.tickets.map Ticket.id).map fun i => some (.text i) := by
  rw [stored_tickets, List.map_map, List.map_map]
  rfl

theorem sla_ids : (stored ds "slas".toList).map (fun r => r "id".toList) =
    (ds.slas.map Sla.id).map fun i => some (.text i) := by
  rw [stored_slas, List.map_map, List.map_map]
  rfl

theorem map_id_customerRow {R : Customer → Text → Prop} {customers : List Customer}
    {slaIds : List Text} (h : List.Forall₂ R customers slaIds) :
    (List.zipWith (customerRow (F := F)) customers slaIds).map (fun r => r "id".toList) =
      (customers.map Customer.id).map fun i => some (.text i) := by
  induction h with
  | nil => rfl
  | cons _ _ ih =>
    rw [List.zipWith_cons_cons, List.map_cons, ih]
    rfl

theorem exists_of_mem_customerRows {customers : List Customer} {slaIds : List Text}
    {row : Row Text (Db.Value F)} (h : row ∈ List.zipWith customerRow customers slaIds) :
    ∃ c, ∃ id, id ∈ slaIds ∧ row = customerRow c id := by
  rw [← List.map_uncurry_zip_eq_zipWith] at h
  obtain ⟨⟨c, id⟩, hmem, rfl⟩ := List.mem_map.mp h
  exact ⟨c, id, (List.of_mem_zip hmem).2, rfl⟩

theorem nodup_of_numbered {α : Type} {id : α → Text} {number : ℕ → Text} {n : ℕ} {xs : List α}
    (h : List.Forall₂ (fun i x => id x = number i) (List.range' 1 n) xs)
    (hinj : Function.Injective number) : (xs.map id).Nodup := by
  rw [map_eq_map_of_forall₂ h]
  exact List.Nodup.map hinj List.nodup_range'

section Constraints

variable {float : ℚ → F} (h : FullGenerated float ds)

include h

theorem customer_ids : (stored ds "customers".toList).map (fun r => r "id".toList) =
    (ds.customers.map Customer.id).map fun i => some (.text i) := by
  rw [stored_customers]
  exact map_id_customerRow h.slaIds

theorem fits_stored (t : Text) :
    ∀ row ∈ stored ds t, (Db.schema t).fits row = true := by
  by_cases ht : t ∈ structuredTables
  · rcases mem_structuredTables.mp ht with rfl | rfl | rfl | rfl | rfl
    · rw [stored_metrics]
      intro row hrow
      obtain ⟨⟨x, n⟩, hx, rfl⟩ := List.mem_map.mp hrow
      have hlength : ds.metrics.length = 8760 := by
        rw [← length_metricKeys, ← h.metrics, List.length_map]
      have hlt := (List.mem_zipIdx hx).2.1
      rw [hlength] at hlt
      exact fits_metric x (by omega)
    · rw [stored_tickets]
      intro row hrow
      obtain ⟨x, hx, rfl⟩ := List.mem_map.mp hrow
      obtain ⟨i, -, hi, hstatus⟩ := exists_of_forall₂_right h.tickets hx
      exact fits_ticket hi.priority hstatus
    · rw [stored_incidents]
      intro row hrow
      obtain ⟨x, hx, rfl⟩ := List.mem_map.mp hrow
      obtain ⟨i, -, hi⟩ := exists_of_forall₂_right h.incidents hx
      exact fits_incident hi.priority
    · rw [stored_customers]
      intro row hrow
      obtain ⟨c, id, -, rfl⟩ := exists_of_mem_customerRows hrow
      exact fits_customer (F := F) c id
    · rw [stored_slas, h.slas]
      intro row hrow
      obtain ⟨x, hx, rfl⟩ := List.mem_map.mp hrow
      exact fits_sla x hx
  · rw [schema_of_notMem ht]
    exact fun _ _ => rfl

theorem unique_stored [DecidableEq F] (t : Text) :
    ∀ key ∈ (Db.schema (F := F) t).keys,
      (stored ds t).Pairwise fun r r' => clashes key r r' = false := by
  by_cases ht : t ∈ structuredTables
  · rcases mem_structuredTables.mp ht with rfl | rfl | rfl | rfl | rfl
    · intro key hkey
      rw [stored_metrics]
      apply pairwise_of_nodup
      rw [List.map_map]
      rcases List.mem_pair.mp hkey with rfl | rfl
      · have hids : (ds.metrics.zipIdx 1).map ((fun r => ["id".toList].map r) ∘
            fun p => Db.numberedId p.2 (metricRow p.1)) =
            ((ds.metrics.zipIdx 1).map Prod.snd).map fun n : ℕ => [some (Db.Value.int n)] := by
          rw [List.map_map]
          rfl
        rw [hids, List.zipIdx_map_snd]
        apply List.Nodup.map _ List.nodup_range'
        intro n n' hn
        simpa using hn
      · have hids : (ds.metrics.zipIdx 1).map ((fun r =>
            ["date".toList, "service".toList, "metric_name".toList].map r) ∘
            fun p => Db.numberedId p.2 (metricRow p.1)) =
            (((ds.metrics.zipIdx 1).map Prod.fst).map MetricDaily.key).map fun key =>
              [some (.time key.1), some (.text key.2.1), some (Db.Value.text key.2.2)] := by
          rw [List.map_map, List.map_map]
          rfl
        rw [hids, List.zipIdx_map_fst, h.metrics]
        apply nodup_metricKeys.map
        rintro ⟨date, service, name⟩ ⟨date', service', name'⟩ hkey
        simpa using hkey
    · intro key hkey
      obtain rfl := List.mem_singleton.mp hkey
      exact pairwise_of_ids ticket_ids (nodup_of_numbered (h.tickets.imp fun _ _ ht => ht.1.id)
        fun i j hij => pad_inj (List.append_cancel_left hij))
    · intro key hkey
      obtain rfl := List.mem_singleton.mp hkey
      exact pairwise_of_ids incident_ids (nodup_of_numbered (h.incidents.imp fun _ _ hi => hi.id)
        fun i j hij => pad_inj (List.append_cancel_left hij))
    · intro key hkey
      obtain rfl := List.mem_singleton.mp hkey
      exact pairwise_of_ids (customer_ids h) (nodup_of_numbered
        (h.customers.imp fun _ _ hc => hc.id) fun i j hij => pad_inj (List.append_cancel_left hij))
    · intro key hkey
      obtain rfl := List.mem_singleton.mp hkey
      apply pairwise_of_ids sla_ids
      have hids : ds.slas.map Sla.id = ["SLA-ENT".toList, "SLA-BUS".toList, "SLA-STA".toList] := by
        rw [h.slas]
        rfl
      rw [hids]
      decide
  · rw [schema_of_notMem ht]
    exact fun _ hkey => absurd hkey List.not_mem_nil

theorem refers_stored (t : Text) :
    ∀ row ∈ stored ds t, Refers (stored ds) (Db.schema (F := F) t).references row := by
  by_cases ht : t ∈ structuredTables
  · rcases mem_structuredTables.mp ht with rfl | rfl | rfl | rfl | rfl
    · exact fun _ _ _ href => absurd href List.not_mem_nil
    · rw [stored_tickets]
      intro row hrow
      obtain ⟨x, hx, rfl⟩ := List.mem_map.mp hrow
      obtain ⟨i, -, hi, -⟩ := exists_of_forall₂_right h.tickets hx
      apply refers_of_ids (customer_ids h)
      intro v hv
      obtain ⟨c, hc, rfl⟩ := Option.map_eq_some_iff.mp hv
      exact ⟨c, hi.customer c hc, rfl⟩
    · rw [stored_incidents]
      intro row hrow
      obtain ⟨x, hx, rfl⟩ := List.mem_map.mp hrow
      obtain ⟨i, -, hi⟩ := exists_of_forall₂_right h.incidents hx
      apply refers_of_ids (customer_ids h)
      intro v hv
      obtain ⟨c, hc, rfl⟩ := Option.map_eq_some_iff.mp hv
      exact ⟨c, hi.customer c hc, rfl⟩
    · rw [stored_customers]
      intro row hrow
      obtain ⟨c, id, hid, rfl⟩ := exists_of_mem_customerRows hrow
      obtain ⟨c', -, hsla⟩ := exists_of_forall₂_right h.slaIds hid
      apply refers_of_ids sla_ids
      intro v hv
      obtain rfl := Option.some.inj hv
      exact ⟨id, hsla, rfl⟩
    · exact fun _ _ _ href => absurd href List.not_mem_nil
  · rw [schema_of_notMem ht]
    exact fun _ _ _ href => absurd href List.not_mem_nil

theorem stored_valid [DecidableEq F] : Valid Db.schema (stored ds) where
  fits := fits_stored h
  unique := unique_stored h
  refers := refers_stored h

end Constraints

end Stored

/-! ### One load -/

section Loads

variable {float : ℚ → F} {ds : FullDataset F}

def loadedCounts : List (Text × ℕ) :=
  [("slas".toList, 3), ("customers".toList, 40), ("incidents".toList, 320),
    ("tickets".toList, 500), ("metrics_daily".toList, 8760)]

theorem ordered_batches : Ordered (Db.schema (F := F)) [] ((batches ds).map Prod.fst) := by
  have hcustomers : ∀ ref ∈ (Db.schema (F := F) "customers".toList).references,
      ref.table ∈ ["slas".toList] := by
    intro ref href
    obtain rfl := List.mem_singleton.mp href
    decide
  have hincidents : ∀ ref ∈ (Db.schema (F := F) "incidents".toList).references,
      ref.table ∈ ["customers".toList, "slas".toList] := by
    intro ref href
    obtain rfl := List.mem_singleton.mp href
    decide
  have htickets : ∀ ref ∈ (Db.schema (F := F) "tickets".toList).references,
      ref.table ∈ ["incidents".toList, "customers".toList, "slas".toList] := by
    intro ref href
    obtain rfl := List.mem_singleton.mp href
    decide
  have hnames : (batches ds).map Prod.fst = ["slas".toList, "customers".toList,
      "incidents".toList, "tickets".toList, "metrics_daily".toList] := rfl
  rw [hnames]
  refine ⟨nofun, by decide, by decide, hcustomers, by decide, by decide, hincidents, by decide,
    by decide, htickets, by decide, by decide, nofun, by decide, by decide, trivial⟩

theorem mem_names {t : Text} : t ∈ (batches ds).map Prod.fst ↔ t ∈ structuredTables := by
  have hsame : (batches ds).map Prod.fst = structuredTables.reverse := rfl
  rw [hsame, List.mem_reverse]

theorem stored_of_notMem {t : Text} (h : t ∉ structuredTables) : stored ds t = [] := by
  have hnone : (batches ds).lookup t = none := by
    rw [List.lookup_eq_none_iff]
    intro b hb
    rw [bne_iff_ne]
    rintro rfl
    exact h (mem_names.mp (List.mem_map_of_mem hb))
  rw [stored, hnone]
  rfl

/-- What a load of this dataset returns. -/
def rowCounts (ds : FullDataset F) : List (Text × ℕ) :=
  (batches ds).map fun b => (b.1, (stored ds b.1).length)

theorem rowCounts_generated (h : FullGenerated float ds) : rowCounts ds = loadedCounts := by
  have hcustomers := h.customers.length_eq
  have hslaIds := h.slaIds.length_eq
  have hincidents := h.incidents.length_eq
  have htickets := h.tickets.length_eq
  have hmetrics := congrArg List.length h.metrics
  rw [List.length_range'] at hcustomers hincidents htickets
  rw [List.length_map, length_metricKeys] at hmetrics
  simp only [rowCounts, batches, List.map_cons, List.map_nil, stored_slas, stored_customers,
    stored_incidents, stored_tickets, stored_metrics, List.length_map, List.length_zipWith,
    List.length_zipIdx, ← hslaIds, ← hcustomers, ← hincidents, ← htickets, hmetrics, h.slas]
  rfl

/-- The numbers of the metrics start where their sequence does. -/
theorem numbered_batches {next : Text → ℕ} (hnext : next "metrics_daily".toList = 1) :
    ∀ b ∈ batches ds, (Db.schema b.1).numbered (next b.1) b.2 = stored ds b.1 := by
  simp only [batches, List.forall_mem_cons, List.not_mem_nil, false_imp_iff, implies_true,
    and_true, hnext]
  rw [stored_slas, stored_customers, stored_incidents, stored_tickets]
  exact ⟨numbered_of_serial_none rfl _ _, numbered_of_serial_none rfl _ _,
    numbered_of_serial_none rfl _ _, numbered_of_serial_none rfl _ _, rfl⟩

variable [DecidableEq F]

/-- The inserts of a load, from empty tables. -/
theorem insertBatches_dataset (hvalid : Valid Db.schema (stored ds))
    {s : Session Text Text (Db.Value F)} (hempty : ∀ t ∈ structuredTables, s.rows t = [])
    (hnext : s.next "metrics_daily".toList = 1) :
    ∃ s', forM (batches ds) (fun b => insertAll Db.schema b.1 b.2) s = .ok () s' ∧
      LoadedInto (stored ds) ((batches ds).map Prod.fst) s s' := by
  apply insertBatches_ok hvalid ordered_batches
  · exact fun _ ht => absurd ht List.not_mem_nil
  · intro b hb
    apply hempty
    have hnames : ∀ t ∈ (batches ds).map Prod.fst, t ∈ structuredTables := by
      have hsame : (batches ds).map Prod.fst = structuredTables.reverse := rfl
      intro t ht
      rwa [hsame, List.mem_reverse] at ht
    exact hnames _ (List.mem_map_of_mem hb)
  · exact numbered_batches hnext

end Loads

end GroundedOps.Seed
