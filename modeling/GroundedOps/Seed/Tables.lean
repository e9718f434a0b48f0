import GroundedOps.Seed.Generated

/-!
# The structured part of the dataset

The service levels, the contract of every customer and the daily metrics, drawn along with the
documents. The documents are those of the corpus.
-/

namespace GroundedOps.Seed

open Python Program

structure Sla (F : Type) where
  id : Text
  name : Text
  tier : Text
  targetResolutionMinutes : ℕ
  uptimeTargetPct : F

structure MetricDaily (F : Type) where
  date : Datetime
  service : Text
  metricName : Text
  value : F

/-- A dataset with its tables; `slaIds` are the contracts of the customers, in order. -/
structure FullDataset (F : Type) extends Dataset where
  slas : List (Sla F)
  slaIds : List Text
  metrics : List (MetricDaily F)

def slaTiers : List Text := ["enterprise".toList, "business".toList, "standard".toList]

def slaSpecs : List (Text × ℕ × ℚ) :=
  [("enterprise".toList, 240, 9995 / 100), ("business".toList, 480, 999 / 10),
    ("standard".toList, 1440, 995 / 10)]

def planToTier : List (Text × Text) :=
  [("Enterprise".toList, "enterprise".toList), ("Business".toList, "business".toList),
    ("Starter".toList, "standard".toList)]

def metricNames : List Text :=
  ["uptime_pct".toList, "latency_p95_ms".toList, "error_rate".toList, "incident_count".toList]

/-- `str.upper`, for ASCII -/
def upper (s : Text) : Text := s.map Char.toUpper

/-- `d[key]` -/
def getItem {α : Type} (d : List (Text × α)) (key : Text) : Except Exn α :=
  (d.lookup key).elim (.error (.other "KeyError".toList)) .ok

/-- The days of the metrics, with the services and the names of each. -/
@[irreducible] def metricKeys : List (Datetime × Text × Text) :=
  let start := (reference - 365 * Datetime.day) / Datetime.day * Datetime.day
  (List.range 365).flatMap fun day => services.flatMap fun service =>
    metricNames.map fun name => (start + day * Datetime.day, service, name)

/-- The values of the metrics; `left` says that they are the draws the corpus skips. -/
structure MetricRng {σ : Type} (rng : Rng σ) (F : Type) where
  /-- `_metric_value` -/
  value : Text → σ → F × σ
  left : ∀ s, metricKeys.foldl (fun s key => (value key.2.2 s).2) s = rng.metrics s

section Draws

variable {σ F : Type} (float : ℚ → F)

def sla (tier : Text) : Except Exn (Sla F) := do
  let spec ← getItem slaSpecs tier
  return {
    id := "SLA-".toList ++ upper (tier.take 3)
    name := capitalize tier ++ " SLA".toList
    tier := tier
    targetResolutionMinutes := spec.1
    uptimeTargetPct := float spec.2 }

def slas : Except Exn (List (Sla F)) := slaTiers.mapM (sla float)

/-- `by_tier[_PLAN_TO_TIER[plan]].id`, where the last service level of a tier counts. -/
def slaId (slas : List (Sla F)) (plan : Text) : Except Exn Text := do
  let tier ← getItem planToTier plan
  getItem (slas.reverse.map fun s => (s.tier, s.id)) tier

def ofExcept {α : Type} : Except Exn α → Gen σ α
  | .ok a => pure a
  | .error e => throw e

variable (rng : Rng σ) (m : MetricRng rng F)

def metrics : Gen σ (List (MetricDaily F)) :=
  metricKeys.mapM fun key => do
    let value ← draw (m.value key.2.2)
    return { date := key.1, service := key.2.1, metricName := key.2.2, value }

def fullDataset : Gen σ (FullDataset F) := do
  let slas ← ofExcept (slas float)
  let customers ← customers rng
  let slaIds ← ofExcept (customers.mapM fun c => slaId slas c.plan)
  let incidents ← incidents rng customers
  let tickets ← tickets rng customers
  let metrics ← metrics rng m
  let postmortems ← postmortems rng incidents
  let runbooks ← runbooks rng
  return { customers, incidents, tickets, postmortems, runbooks, slas, slaIds, metrics }

def generateFull (seed : ℤ) : Except Exn (FullDataset F) :=
  match fullDataset float rng m (rng.seeded seed) with
  | .ok ds _ => .ok ds
  | .error e _ => .error e

end Draws

/-! ### What is generated -/

section Generated

variable {σ F : Type} (float : ℚ → F) (rng : Rng σ) (m : MetricRng rng F)

/-- The service levels do not depend on the seed. -/
def standardSlas : List (Sla F) :=
  [⟨"SLA-ENT".toList, "Enterprise SLA".toList, "enterprise".toList, 240, float (9995 / 100)⟩,
    ⟨"SLA-BUS".toList, "Business SLA".toList, "business".toList, 480, float (999 / 10)⟩,
    ⟨"SLA-STA".toList, "Standard SLA".toList, "standard".toList, 1440, float (995 / 10)⟩]

theorem slas_eq : slas float = .ok (standardSlas float) := by rfl

theorem slaId_mem {plan : Text} (h : plan ∈ plans.map Prod.fst) :
    ∃ id, slaId (standardSlas float) plan = .ok id ∧ id ∈ (standardSlas float).map Sla.id := by
  have hplans : ∀ p ∈ plans.map Prod.fst, p ∈ planToTier.map Prod.fst := by decide
  simp only [planToTier, List.map_cons, List.map_nil, List.mem_cons, List.not_mem_nil,
    or_false] at hplans
  rcases hplans plan h with rfl | rfl | rfl
  · exact ⟨"SLA-ENT".toList, rfl, by simp [standardSlas]⟩
  · exact ⟨"SLA-BUS".toList, rfl, by simp [standardSlas]⟩
  · exact ⟨"SLA-STA".toList, rfl, by simp [standardSlas]⟩

theorem optional_mem {α : Type} {p : Gen σ α} {P : α → Prop} (h : Yields P p) (condition : Prop)
    [Decidable condition] : Yields (fun o => ∀ a ∈ o, P a) (optional condition p) := by
  unfold optional
  split_ifs
  · rw [map_eq_pure_bind]
    apply yields_bind h
    intro a ha
    apply yields_pure
    intro b hb
    obtain rfl := Option.mem_some_iff.mp hb
    exact ha
  · exact yields_pure nofun

def customerId (i : ℕ) : Text := "CUST-".toList ++ pad 3 i
def incidentId (i : ℕ) : Text := "INC-".toList ++ pad 4 i

/-- What a customer has from its number and from the list of plans. -/
structure CustomerAt (i : ℕ) (c : Customer) : Prop where
  id : c.id = customerId i
  plan : c.plan ∈ plans.map Prod.fst

/-- The row of a table whose values the database constrains. -/
structure Constrained (customers : List Customer) (id' : Text) (id priority : Text)
    (customer : Option Text) : Prop where
  id : id = id'
  priority : priority ∈ severities
  customer : ∀ c ∈ customer, c ∈ customers.map Customer.id

theorem customer_at (i : ℕ) : Yields (CustomerAt i) (customer rng i) := by
  apply yields_bind (weighted_mem rng (by decide))
  intro plan hplan
  apply yields_of_returns (randint_returns rng _ _)
  intro days
  apply yields_of_returns (returns_draw _)
  intro name
  apply yields_of_returns (choice_mem rng (by decide)).returns
  intro region
  exact yields_pure ⟨rfl, hplan⟩

theorem mem_ids {customers : List Customer} {customer : Option Customer}
    (h : ∀ c ∈ customer, c ∈ customers) :
    ∀ id ∈ customer.map Customer.id, id ∈ customers.map Customer.id := by
  intro id hid
  obtain ⟨c, hc, rfl⟩ := Option.mem_map.mp hid
  exact List.mem_map_of_mem (h c hc)

theorem incident_constrained {customers : List Customer} (h : customers ≠ []) (i : ℕ) :
    Yields (fun inc => Constrained customers (incidentId i) inc.id inc.severity inc.customerId)
      (incident rng customers i) := by
  apply yields_bind (weighted_mem rng (by decide))
  intro severity hseverity
  apply yields_of_returns (past_returns rng)
  intro opened
  apply yields_of_returns (optional_returns (returns_draw _) _)
  intro isOpen
  apply yields_of_returns (optional_returns (resolution_returns rng hseverity) _)
  intro minutes
  apply yields_of_returns (choice_mem rng (by decide)).returns
  intro service
  apply yields_of_returns (weighted_mem rng (by decide)).returns
  intro category
  apply yields_of_returns (returns_draw _)
  intro known
  apply yields_bind (optional_mem (choice_mem rng h) _)
  intro customer hcustomer
  exact yields_pure ⟨rfl, hseverity, mem_ids hcustomer⟩

theorem ticket_constrained {customers : List Customer} (h : customers ≠ []) (i : ℕ) :
    Yields (fun t => Constrained customers (ticketId i) t.id t.priority t.customerId ∧
      t.status ∈ statuses.map Prod.fst) (ticket rng customers i) := by
  apply yields_of_returns (choice_mem rng (by decide)).returns
  intro service
  apply yields_of_returns (choice_mem rng (by decide)).returns
  intro symptom
  apply yields_bind (weighted_mem rng (by decide))
  intro priority hpriority
  apply yields_bind (weighted_mem rng (by decide))
  intro status hstatus
  apply yields_of_returns (past_returns rng)
  intro created
  apply yields_of_returns (optional_returns (randint_returns rng _ _) _)
  intro hours
  apply yields_of_returns (returns_draw _)
  intro known
  apply yields_bind (optional_mem (choice_mem rng h) _)
  intro customer hcustomer
  apply yields_of_returns (returns_draw _)
  intro paragraph
  apply yields_of_returns (returns_draw _)
  intro workaround
  exact yields_pure ⟨⟨rfl, hpriority, mem_ids hcustomer⟩, hstatus⟩

def MetricDaily.key (x : MetricDaily F) : Datetime × Text × Text :=
  (x.date, x.service, x.metricName)

/-- Drawing the metrics draws one value for every key, and leaves what the corpus goes on from. -/
theorem metrics_run (s : σ) : ∃ ms, metrics rng m s = .ok ms (rng.metrics s) ∧
    ms.map MetricDaily.key = metricKeys := by
  have hkeys : ∀ (keys : List (Datetime × Text × Text)) (s : σ), ∃ ms : List (MetricDaily F),
      (keys.mapM fun key => do
        let value ← draw (m.value key.2.2)
        return { date := key.1, service := key.2.1, metricName := key.2.2, value } :
          Gen σ (List (MetricDaily F))) s =
        .ok ms (keys.foldl (fun s key => (m.value key.2.2 s).2) s) ∧
      ms.map MetricDaily.key = keys := by
    intro keys
    induction keys with
    | nil => exact fun s => ⟨[], rfl, rfl⟩
    | cons key keys ih =>
      intro s
      obtain ⟨ms, hms, hmap⟩ := ih (m.value key.2.2 s).2
      refine ⟨⟨key.1, key.2.1, key.2.2, (m.value key.2.2 s).1⟩ :: ms, ?_, ?_⟩
      · have hdraw : (do
            let value ← draw (m.value key.2.2)
            return { date := key.1, service := key.2.1, metricName := key.2.2, value } :
              Gen σ (MetricDaily F)) s =
            .ok ⟨key.1, key.2.1, key.2.2, (m.value key.2.2 s).1⟩ (m.value key.2.2 s).2 := rfl
        rw [List.mapM_cons, run_bind_ok hdraw, run_bind_ok hms]
        rfl
      · rw [List.map_cons, hmap]
        rfl
  obtain ⟨ms, hms, hmap⟩ := hkeys metricKeys s
  rw [m.left] at hms
  exact ⟨ms, hms, hmap⟩

/-- What every full dataset is like. -/
structure FullGenerated (ds : FullDataset F) : Prop where
  slas : ds.slas = standardSlas float
  customers : List.Forall₂ CustomerAt (List.range' 1 nCustomers) ds.customers
  slaIds : List.Forall₂ (fun _ id => id ∈ ds.slas.map Sla.id) ds.customers ds.slaIds
  incidents : List.Forall₂ (fun i inc => Constrained ds.customers (incidentId i) inc.id
    inc.severity inc.customerId) (List.range' 1 nIncidents) ds.incidents
  tickets : List.Forall₂ (fun i t => Constrained ds.customers (ticketId i) t.id t.priority
    t.customerId ∧ t.status ∈ statuses.map Prod.fst) (List.range' 1 nTickets) ds.tickets
  metrics : ds.metrics.map MetricDaily.key = metricKeys

theorem slaIds_run {customers : List Customer}
    (h : List.Forall₂ CustomerAt (List.range' 1 nCustomers) customers) :
    ∃ ids, customers.mapM (fun c => slaId (standardSlas float) c.plan) = .ok ids ∧
      List.Forall₂ (fun _ id => id ∈ (standardSlas float).map Sla.id) customers ids := by
  have hplan : ∀ c ∈ customers, c.plan ∈ plans.map Prod.fst := by
    intro c hc
    obtain ⟨i, -, hi⟩ := exists_of_forall₂_right h hc
    exact hi.plan
  obtain ⟨ids, hrun⟩ : ∃ ids, customers.mapM (fun c => slaId (standardSlas float) c.plan) =
      .ok ids := by
    apply exists_mapM_ok.mpr
    intro c hc
    obtain ⟨id, hid, -⟩ := slaId_mem float (hplan c hc)
    exact ⟨id, hid⟩
  refine ⟨ids, hrun, ((List.forall₂_and_left _ _).mpr ⟨hplan, mapM_eq_ok.mp hrun⟩).imp ?_⟩
  rintro c id ⟨hc, hid⟩
  obtain ⟨id', hid', hmem⟩ := slaId_mem float hc
  obtain rfl := Except.ok.inj (hid.symm.trans hid')
  exact hmem

theorem yields_ofExcept {α : Type} {x : Except Exn α} {a : α} (hx : x = .ok a) :
    Yields (· = a) (ofExcept x : Gen σ α) := by
  rw [hx]
  exact yields_pure rfl

theorem wp_of_run {α : Type} {p : Gen σ α} {P : α → Prop} {s s' : σ} {a : α}
    (h : p s = .ok a s') (ha : P a) : wp p (fun a _ => P a) (fun _ _ => False) s := by
  unfold wp
  rw [h]
  exact ha

theorem yields_and {α : Type} {p : Gen σ α} {P Q : α → Prop} (hP : Yields P p)
    (hQ : Yields Q p) : Yields (fun a => P a ∧ Q a) p := by
  intro s
  obtain ⟨a, s', hrun, ha⟩ := hP.run s
  obtain ⟨b, _, hrun', hb⟩ := hQ.run s
  cases hrun.symm.trans hrun'
  exact wp_of_run hrun ⟨ha, hb⟩

theorem metrics_keys : Yields (fun ms => ms.map MetricDaily.key = metricKeys)
    (metrics rng m) := by
  intro s
  obtain ⟨ms, hms, hmap⟩ := metrics_run rng m s
  exact wp_of_run hms hmap

theorem fullDataset_generated : Yields (FullGenerated float) (fullDataset float rng m) := by
  apply yields_bind (yields_ofExcept (slas_eq float))
  rintro _ rfl
  apply yields_bind (yields_mapM _ fun i _ => customer_at rng i)
  intro customers hcustomers
  obtain ⟨ids, hrun, hids⟩ := slaIds_run float hcustomers
  have hne : customers ≠ [] := by
    rintro rfl
    exact absurd hcustomers.length_eq (by decide)
  apply yields_bind (yields_ofExcept hrun)
  rintro _ rfl
  apply yields_bind (yields_mapM _ fun i _ =>
    yields_and (incident_at rng hne i) (incident_constrained rng hne i))
  intro incidents hincidents
  apply yields_bind (yields_mapM _ fun i _ => ticket_constrained rng hne i)
  intro tickets htickets
  apply yields_bind (metrics_keys rng m)
  intro metrics hmetrics
  apply yields_of_returns (postmortems_of rng (hincidents.imp fun _ _ h => h.1)).returns
  intro postmortems
  apply yields_of_returns (yields_mapM _ fun i _ => runbook_at rng i).returns
  intro runbooks
  exact yields_pure ⟨rfl, hcustomers, hids, hincidents.imp fun _ _ h => h.2, htickets, hmetrics⟩

/-- Every seed gives a full dataset. -/
theorem generateFull_ok (seed : ℤ) :
    ∃ ds, generateFull float rng m seed = .ok ds ∧ FullGenerated float ds := by
  obtain ⟨ds, s, hds, h⟩ := (fullDataset_generated float rng m).run (rng.seeded seed)
  exact ⟨ds, by rw [generateFull, hds], h⟩

theorem ofExcept_run {α : Type} {x : Except Exn α} {a : α} {s s' : σ}
    (h : ofExcept x s = .ok a s') : s' = s := by
  cases x with
  | ok b =>
    cases h
    rfl
  | error e => cases h

theorem dataset_of_full {s s' : σ} {ds : FullDataset F}
    (h : fullDataset float rng m s = .ok ds s') : dataset rng s = .ok ds.toDataset s' := by
  unfold fullDataset at h
  obtain ⟨slas, s₁, hslas, h⟩ := run_bind_eq_ok.mp h
  obtain ⟨customers, s₂, hcustomers, h⟩ := run_bind_eq_ok.mp h
  obtain ⟨slaIds, s₃, hslaIds, h⟩ := run_bind_eq_ok.mp h
  obtain ⟨incidents, s₄, hincidents, h⟩ := run_bind_eq_ok.mp h
  obtain ⟨tickets, s₅, htickets, h⟩ := run_bind_eq_ok.mp h
  obtain ⟨metrics, s₆, hmetrics, h⟩ := run_bind_eq_ok.mp h
  obtain ⟨postmortems, s₇, hpostmortems, h⟩ := run_bind_eq_ok.mp h
  obtain ⟨runbooks, s₈, hrunbooks, h⟩ := run_bind_eq_ok.mp h
  cases h
  obtain rfl := ofExcept_run hslas
  obtain rfl := ofExcept_run hslaIds
  obtain ⟨ms, hms, -⟩ := metrics_run rng m s₅
  cases hmetrics.symm.trans hms
  have hskipped : draw (fun s => ((), rng.metrics s)) s₅ = .ok () (rng.metrics s₅) := rfl
  rw [dataset, run_bind_ok hcustomers, run_bind_ok hincidents, run_bind_ok htickets,
    run_bind_ok hskipped, run_bind_ok hpostmortems, run_bind_ok hrunbooks]
  rfl

/-- The documents of a full dataset are those of the corpus. -/
theorem generateDataset_of_full {seed : ℤ} {ds : FullDataset F}
    (h : generateFull float rng m seed = .ok ds) :
    generateDataset rng seed = .ok ds.toDataset := by
  unfold generateFull at h
  cases hrun : fullDataset float rng m (rng.seeded seed) with
  | ok ds' s =>
    rw [hrun] at h
    cases h
    rw [generateDataset, dataset_of_full float rng m hrun]
  | error e s =>
    rw [hrun] at h
    cases h

end Generated

end GroundedOps.Seed
