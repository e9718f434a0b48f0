import GroundedOps.McpServer.VisibleColumns
import GroundedOps.Seed.Loader

/-!
# Texts without the zero character

PostgreSQL stores no text with U+0000. The texts of a generated dataset have none if those of
`Faker` have none.
-/

namespace GroundedOps.Seed

open Python Program Relational
open McpServer (nul)

variable {F : Type} {float : ℚ → F}

/-- The texts of `Faker` have no zero character. -/
structure PlainFaker {σ : Type} (rng : Rng σ) : Prop where
  company : ∀ s, nul ∉ (rng.company s).1
  paragraph : ∀ n s, nul ∉ (rng.paragraph n s).1

def NulFree (v : Option (Db.Value F)) : Prop := ∀ s, v = some (.text s) → nul ∉ s

@[simp] theorem nulFree_text {s : Text} :
    NulFree (some (.text s) : Option (Db.Value F)) ↔ nul ∉ s := by
  simp [NulFree]

@[simp] theorem nulFree_none : NulFree (none : Option (Db.Value F)) := nofun

@[simp] theorem nulFree_int (n : ℤ) : NulFree (some (.int n) : Option (Db.Value F)) := nofun

@[simp] theorem nulFree_float (x : F) : NulFree (some (.float x) : Option (Db.Value F)) := nofun

@[simp] theorem nulFree_time (t : ℕ) : NulFree (some (.time t) : Option (Db.Value F)) := nofun

theorem nulFree_texts {o : Option Text} (h : ∀ s ∈ o, nul ∉ s) :
    NulFree (o.map .text : Option (Db.Value F)) := by
  cases o with
  | none => exact nulFree_none
  | some s => exact nulFree_text.mpr (h s rfl)

theorem nulFree_times (o : Option ℕ) : NulFree (o.map .time : Option (Db.Value F)) := by
  cases o with
  | none => exact nulFree_none
  | some t => exact nulFree_time t

theorem nulFree_row {values : List (Text × Option (Db.Value F))}
    (h : ∀ p ∈ values, NulFree p.2) (c : Text) : NulFree (Db.row values c) := by
  unfold Db.row
  cases hlookup : values.lookup c with
  | none => exact nulFree_none
  | some v =>
    obtain ⟨before, after, hsplit, -⟩ := List.lookup_eq_some_iff.mp hlookup
    exact h (c, v) (by rw [hsplit]; simp)

theorem nul_notMem_append {s t : Text} (hs : nul ∉ s) (ht : nul ∉ t) : nul ∉ s ++ t := by
  rw [List.mem_append]
  exact not_or.mpr ⟨hs, ht⟩

theorem nul_notMem_pad (width n : ℕ) : nul ∉ pad width n := notMem_pad rfl width n

theorem nul_notMem_strftime (dt : Datetime) : nul ∉ dt.strftime := by
  have hliterals : nul ∉ "-".toList ∧ nul ∉ " ".toList ∧ nul ∉ ":".toList ∧
      nul ∉ " UTC".toList := by decide
  simp only [Datetime.strftime, Datetime.date, List.mem_append, nul_notMem_pad, hliterals, or_self,
    not_false_eq_true]

theorem nul_notMem_ticketBody {who symptom service paragraph priority : Text}
    (hwho : nul ∉ who) (hsymptom : nul ∉ symptom) (hservice : nul ∉ service)
    (hparagraph : nul ∉ paragraph) (hpriority : nul ∉ priority) (created : Datetime)
    (workaround : Bool) :
    nul ∉ ticketBody who symptom service paragraph priority created workaround := by
  have hend : nul ∉ if workaround then
      "On-call applied a temporary workaround while investigating.".toList
      else "Escalated to the service owning team for root-cause analysis.".toList := by
    cases workaround <;> decide
  have hfmt : nul ∉ fmt (some created) := nul_notMem_strftime created
  have hliterals : nul ∉ " reports ".toList ∧ nul ∉ " affecting the ".toList ∧
      nul ∉ " service. ".toList ∧ nul ∉ " The issue was first observed around ".toList ∧
      nul ∉ " and assessed as priority ".toList ∧ nul ∉ ". ".toList := by decide
  simp only [ticketBody, List.mem_append, hwho, hsymptom, hservice, hparagraph, hpriority, hfmt,
    hliterals, hend, or_self, not_false_eq_true]

section Draws

variable {σ : Type} {rng : Rng σ} (hfaker : PlainFaker rng)

include hfaker

theorem customer_plain (i : ℕ) :
    Yields (fun c => nul ∉ c.name ∧ nul ∉ c.region) (customer rng i) := by
  have hregions : ∀ r ∈ regions, nul ∉ r := by decide
  apply yields_of_returns (weighted_mem rng (by decide)).returns
  intro plan
  apply yields_of_returns (randint_returns rng _ _)
  intro days
  apply yields_bind (yields_draw (P := fun s => nul ∉ s) hfaker.company)
  intro name hname
  apply yields_bind (choice_mem rng (by decide))
  intro region hregion
  exact yields_pure ⟨hname, hregions region hregion⟩

theorem ticket_plain {customers : List Customer} (h : customers ≠ [])
    (hnames : ∀ c ∈ customers, nul ∉ c.name) (i : ℕ) :
    Yields (fun t => nul ∉ t.title ∧ nul ∉ t.body) (ticket rng customers i) := by
  have hservices : ∀ s ∈ services, nul ∉ s := by decide
  have hsymptoms : ∀ s ∈ symptoms, nul ∉ s ∧ nul ∉ capitalize s := by decide +kernel
  have hpriorities : ∀ p ∈ severityWeights.map Prod.fst, nul ∉ p := by decide
  apply yields_bind (choice_mem rng (by decide))
  intro service hservice
  apply yields_bind (choice_mem rng (by decide))
  intro symptom hsymptom
  apply yields_bind (weighted_mem rng (by decide))
  intro priority hpriority
  apply yields_of_returns (weighted_mem rng (by decide)).returns
  intro status
  apply yields_of_returns (past_returns rng)
  intro created
  apply yields_of_returns (optional_returns (randint_returns rng _ _) _)
  intro hours
  apply yields_of_returns (returns_draw _)
  intro known
  apply yields_bind (optional_mem (choice_mem rng h) _)
  intro customer hcustomer
  apply yields_bind (yields_draw (P := fun s => nul ∉ s) (hfaker.paragraph 4))
  intro paragraph hparagraph
  apply yields_of_returns (returns_draw _)
  intro workaround
  have hwho : nul ∉ (customer.map Customer.name).getD "A customer".toList := by
    cases customer with
    | none => decide
    | some c => exact hnames c (hcustomer c rfl)
  apply yields_pure
  constructor
  · exact nul_notMem_append (nul_notMem_append (hsymptoms _ hsymptom).2 (by decide))
      (hservices _ hservice)
  · exact nul_notMem_ticketBody hwho (hsymptoms _ hsymptom).1 (hservices _ hservice) hparagraph
      (hpriorities _ hpriority) created workaround

end Draws

/-- The texts of a dataset that come from `Faker`. -/
structure PlainTexts (ds : FullDataset F) : Prop where
  customers : ∀ c ∈ ds.customers, nul ∉ c.name ∧ nul ∉ c.region
  tickets : ∀ t ∈ ds.tickets, nul ∉ t.title ∧ nul ∉ t.body

section Datasets

variable {σ : Type} {rng : Rng σ} {m : MetricRng rng F} {seed : ℤ} {ds : FullDataset F}

theorem plainTexts_of_generated (hfaker : PlainFaker rng)
    (h : generateFull float rng m seed = .ok ds) : PlainTexts ds := by
  have hyields : Yields PlainTexts (fullDataset float rng m) := by
    apply yields_bind (yields_ofExcept (slas_eq float))
    rintro _ rfl
    apply yields_bind (yields_mapM _ fun i _ =>
      yields_and (customer_at rng i) (customer_plain hfaker i))
    intro customers hcustomers
    have hplain : ∀ c ∈ customers, nul ∉ c.name ∧ nul ∉ c.region := by
      intro c hc
      obtain ⟨i, -, hi⟩ := exists_of_forall₂_right hcustomers hc
      exact hi.2
    obtain ⟨ids, hrun, hids⟩ := slaIds_run float (hcustomers.imp fun _ _ h => h.1)
    have hne : customers ≠ [] := by
      rintro rfl
      exact absurd hcustomers.length_eq (by decide)
    apply yields_bind (yields_ofExcept hrun)
    rintro _ rfl
    apply yields_bind (yields_mapM _ fun i _ => incident_at rng hne i)
    intro incidents hincidents
    apply yields_bind (yields_mapM _ fun i _ =>
      ticket_plain hfaker hne (fun c hc => (hplain c hc).1) i)
    intro tickets htickets
    apply yields_of_returns (metrics_keys rng m).returns
    intro metrics
    apply yields_of_returns (postmortems_of rng hincidents).returns
    intro postmortems
    apply yields_of_returns (yields_mapM _ fun i _ => runbook_at rng i).returns
    intro runbooks
    refine yields_pure ⟨hplain, fun t ht => ?_⟩
    obtain ⟨i, -, hi⟩ := exists_of_forall₂_right htickets ht
    exact hi
  obtain ⟨ds', s, hrun, hplain⟩ := hyields.run (rng.seeded seed)
  rw [generateFull, hrun] at h
  cases h
  exact hplain

theorem customerIds_plain (hfull : FullGenerated float ds) :
    ∀ id ∈ ds.customers.map Customer.id, nul ∉ id := by
  intro id hid
  obtain ⟨c, hc, rfl⟩ := List.mem_map.mp hid
  obtain ⟨i, -, hi⟩ := exists_of_forall₂_right hfull.customers hc
  rw [hi.id]
  exact nul_notMem_append (by decide) (nul_notMem_pad _ _)

theorem slaIds_plain (hfull : FullGenerated float ds) : ∀ id ∈ ds.slaIds, nul ∉ id := by
  have hids : ∀ id ∈ ["SLA-ENT".toList, "SLA-BUS".toList, "SLA-STA".toList], nul ∉ id := by decide
  intro id hid
  obtain ⟨c, -, hmem⟩ := exists_of_forall₂_right hfull.slaIds hid
  rw [hfull.slas] at hmem
  exact hids id hmem

theorem metric_plain (hfull : FullGenerated float ds) :
    ∀ x ∈ ds.metrics, nul ∉ x.service ∧ nul ∉ x.metricName := by
  have hservices : ∀ s ∈ services, nul ∉ s := by decide
  have hnames : ∀ s ∈ metricNames, nul ∉ s := by decide
  intro x hx
  have hkey : x.key ∈ metricKeys := by
    rw [← hfull.metrics]
    exact List.mem_map_of_mem hx
  rw [metricKeys_eq] at hkey
  obtain ⟨⟨day, service, name⟩, hmem, heq⟩ := List.mem_map.mp hkey
  obtain ⟨-, hmem⟩ := List.mem_product.mp hmem
  obtain ⟨hservice, hname⟩ := List.mem_product.mp hmem
  obtain ⟨-, hrest⟩ := Prod.mk.inj heq
  obtain ⟨hsame, hsame'⟩ := Prod.mk.inj hrest
  rw [← hsame, ← hsame']
  exact ⟨hservices _ hservice, hnames _ hname⟩

/-- No text of the tables has a zero character. -/
theorem stored_nulFree (hgenerated : Generated ds.toDataset) (hfull : FullGenerated float ds)
    (hplain : PlainTexts ds) (t : Text) : ∀ r ∈ stored ds t, ∀ c, NulFree (r c) := by
  have hpriorities : ∀ p ∈ severities, nul ∉ p := by decide
  have hstatuses : ∀ s ∈ statuses.map Prod.fst, nul ∉ s := by decide
  have hservices : ∀ s ∈ services, nul ∉ s := by decide
  have hcategories : ∀ c ∈ categories, nul ∉ c := by decide
  have hplans : ∀ p ∈ plans.map Prod.fst, nul ∉ p := by decide
  have hids := customerIds_plain hfull
  by_cases ht : t ∈ structuredTables
  · rcases mem_structuredTables.mp ht with rfl | rfl | rfl | rfl | rfl
    · rw [stored_metrics]
      intro r hr c
      obtain ⟨⟨x, n⟩, hx, rfl⟩ := List.mem_map.mp hr
      obtain ⟨hservice, hname⟩ := metric_plain hfull x (List.fst_mem_of_mem_zipIdx hx)
      by_cases hc : c = "id".toList
      · subst hc
        exact nulFree_int n
      · rw [Db.numberedId, Function.update_of_ne hc]
        apply nulFree_row
        simp [hservice, hname]
    · rw [stored_tickets]
      intro r hr c
      obtain ⟨x, hx, rfl⟩ := List.mem_map.mp hr
      obtain ⟨i, -, hi, hstatus⟩ := exists_of_forall₂_right hfull.tickets hx
      obtain ⟨htitle, hbody⟩ := hplain.tickets x hx
      have hid : nul ∉ x.id := by
        rw [hi.id]
        exact nul_notMem_append (by decide) (nul_notMem_pad _ _)
      have hcustomer := nulFree_texts (F := F) fun id h => hids id (hi.customer id h)
      apply nulFree_row
      simp [hid, htitle, hbody, hcustomer, hpriorities _ hi.priority, hstatuses _ hstatus,
        nulFree_times]
    · rw [stored_incidents]
      intro r hr c
      obtain ⟨x, hx, rfl⟩ := List.mem_map.mp hr
      obtain ⟨i, -, hi⟩ := exists_of_forall₂_right hfull.incidents hx
      obtain ⟨j, -, hj⟩ := exists_of_forall₂_right hgenerated.incidents hx
      have hid : nul ∉ x.id := by
        rw [hi.id]
        exact nul_notMem_append (by decide) (nul_notMem_pad _ _)
      have hcustomer := nulFree_texts (F := F) fun id h => hids id (hi.customer id h)
      apply nulFree_row
      simp [hid, hcustomer, hpriorities _ hj.severity, hservices _ hj.service,
        hcategories _ hj.category, nulFree_times]
    · rw [stored_customers]
      intro r hr c
      rw [← List.map_uncurry_zip_eq_zipWith] at hr
      obtain ⟨⟨x, sla⟩, hx, rfl⟩ := List.mem_map.mp hr
      obtain ⟨hx, hsla⟩ := List.of_mem_zip hx
      obtain ⟨i, -, hi⟩ := exists_of_forall₂_right hfull.customers hx
      obtain ⟨hname, hregion⟩ := hplain.customers x hx
      apply nulFree_row
      simp [hids _ (List.mem_map_of_mem hx), hname, hregion, hplans _ hi.plan,
        slaIds_plain hfull _ hsla]
    · rw [stored_slas, hfull.slas]
      intro r hr c
      obtain ⟨x, hx, rfl⟩ := List.mem_map.mp hr
      have hslas : ∀ x ∈ standardSlas float, nul ∉ x.id ∧ nul ∉ x.name ∧ nul ∉ x.tier := by
        simp only [standardSlas, List.forall_mem_cons, List.not_mem_nil, false_imp_iff,
          implies_true, and_true]
        decide
      obtain ⟨hid, hname, htier⟩ := hslas x hx
      apply nulFree_row
      simp [hid, hname, htier]
  · rw [stored_of_notMem ht]
    exact fun _ hr => absurd hr List.not_mem_nil

end Datasets

end GroundedOps.Seed
