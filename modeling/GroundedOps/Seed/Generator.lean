import GroundedOps.Python.Datetime

/-!
# The synthetic dataset

Customers, incidents, tickets and the two kinds of Markdown documents, generated from a
seed. The generators behind `random` and `Faker` are arbitrary.
-/

namespace GroundedOps.Seed

open Python

/-- `random.Random` and `Faker` with their joint state. Draws that go through floating point
numbers are given by what the program makes of them: an index among weights, in hundredths,
the truth of `random() < percent / 100`, and times in microseconds. -/
structure Rng (σ : Type) where
  seeded : ℤ → σ
  randbelow : ℕ → σ → ℕ × σ
  randbelow_lt : ∀ n s, 0 < n → (randbelow n s).1 < n
  choices : List ℕ → σ → ℕ × σ
  choices_lt : ∀ weights s, weights ≠ [] → (choices weights s).1 < weights.length
  chance : ℕ → σ → Bool × σ
  /-- `timedelta(days=random() * 365)` -/
  daysOfYear : σ → ℕ × σ
  /-- `timedelta(minutes=lognormvariate(log(mean), 0.5))` -/
  lognormal : ℕ → σ → ℕ × σ
  /-- What drawing the values of all metrics leaves. -/
  metrics : σ → σ
  company : σ → Text × σ
  paragraph : ℕ → σ → Text × σ
  return_notMem_paragraph : ∀ n s, '\r' ∉ (paragraph n s).1
  sentence : ℕ → σ → Text × σ
  return_notMem_sentence : ∀ n s, '\r' ∉ (sentence n s).1

/-- A generator of values, which may raise. -/
abbrev Gen (σ α : Type) := EStateM Exn σ α

def draw {σ α : Type} (f : σ → α × σ) : Gen σ α := fun s => .ok (f s).1 (f s).2

def reference : Datetime := 1781524800 * Datetime.second

def nCustomers : ℕ := 40
def nIncidents : ℕ := 320
def nTickets : ℕ := 500
def nPostmortems : ℕ := 60
def nRunbooks : ℕ := 30

def services : List Text :=
  ["payments".toList, "auth".toList, "search".toList, "notifications".toList, "billing".toList,
    "api-gateway".toList]

def regions : List Text := ["NA".toList, "EU".toList, "APAC".toList, "LATAM".toList]

def plans : List (Text × ℕ) :=
  [("Enterprise".toList, 25), ("Business".toList, 40), ("Starter".toList, 35)]

def severityWeights : List (Text × ℕ) :=
  [("P1".toList, 12), ("P2".toList, 23), ("P3".toList, 35), ("P4".toList, 30)]

def severityMttrMin : List (Text × ℕ) :=
  [("P1".toList, 150), ("P2".toList, 360), ("P3".toList, 900), ("P4".toList, 2000)]

def rootCauseWeights : List (Text × ℕ) :=
  [("deployment".toList, 22), ("configuration".toList, 18), ("capacity".toList, 14),
    ("dependency-failure".toList, 12), ("database".toList, 11), ("network".toList, 9),
    ("human-error".toList, 8), ("third-party".toList, 6)]

def statuses : List (Text × ℕ) :=
  [("open".toList, 15), ("pending".toList, 10), ("resolved".toList, 30), ("closed".toList, 45)]

def symptoms : List Text :=
  ["elevated error rates".toList, "increased latency".toList, "failed logins".toList,
    "request timeouts".toList, "degraded throughput".toList,
    "intermittent 5xx responses".toList, "slow database queries".toList,
    "webhook delivery failures".toList, "payment declines".toList,
    "missing notifications".toList]

def topics : List Text :=
  ["Responding to elevated latency".toList, "Database failover procedure".toList,
    "Rotating service credentials".toList, "Scaling the API gateway".toList,
    "Investigating elevated error rates".toList, "Recovering stuck webhook deliveries".toList,
    "Handling a payments outage".toList, "Draining a degraded node".toList,
    "Rolling back a bad deployment".toList, "Diagnosing slow database queries".toList,
    "Restoring from a backup".toList, "Mitigating a third-party dependency outage".toList,
    "Clearing a notification backlog".toList,
    "Responding to an authentication outage".toList, "Capacity planning checklist".toList]

structure Customer where
  id : Text
  name : Text
  plan : Text
  region : Text
  createdAt : Datetime

structure Incident where
  id : Text
  severity : Text
  service : Text
  openedAt : Datetime
  resolvedAt : Option Datetime
  rootCauseCategory : Text
  customerId : Option Text

structure Ticket where
  id : Text
  title : Text
  body : Text
  customerId : Option Text
  priority : Text
  status : Text
  createdAt : Datetime
  resolvedAt : Option Datetime

/-- An unstructured corpus document (postmortem or runbook). -/
structure Doc where
  docId : Text
  sourceType : Text
  title : Text
  relPath : Text
  markdown : Text

structure Dataset where
  customers : List Customer
  incidents : List Incident
  tickets : List Ticket
  postmortems : List Doc
  runbooks : List Doc

/-- `str.lower`, for ASCII -/
def lower (s : Text) : Text := s.map Char.toLower

/-- `str.capitalize`, for ASCII -/
def capitalize : Text → Text
  | [] => []
  | c :: s => c.toUpper :: lower s

def fmt : Option Datetime → Text
  | some dt => dt.strftime
  | none => "unresolved".toList

def unlines (lines : List Text) : Text := lines.flatMap fun line => line ++ ['\n']

section Draws

variable {σ : Type} (rng : Rng σ)

def choice {α : Type} (xs : List α) : Gen σ α := do
  let i ← draw (rng.randbelow xs.length)
  match xs[i]? with
  | some x => pure x
  | none => throw (.other "IndexError".toList)

def weighted {α : Type} (weights : List (α × ℕ)) : Gen σ α := do
  let i ← draw (rng.choices (weights.map Prod.snd))
  match weights[i]? with
  | some x => pure x.1
  | none => throw (.other "IndexError".toList)

def randint (a b : ℕ) : Gen σ ℕ := do
  let i ← draw (rng.randbelow (b - a + 1))
  return a + i

/-- A value that is only drawn on a condition. -/
def optional {α : Type} (condition : Prop) [Decidable condition] (p : Gen σ α) :
    Gen σ (Option α) :=
  if condition then some <$> p else pure none

def swap {α : Type} (xs : List α) (i j : ℕ) : List α :=
  match xs[i]?, xs[j]? with
  | some x, some y => (xs.set i y).set j x
  | _, _ => xs

/-- `rng.shuffle`: every place from the last one down changes with one at or below it. -/
def shuffle {α : Type} (xs : List α) : Gen σ (List α) :=
  (List.range' 1 (xs.length - 1)).reverse.foldlM (fun xs i => do
    let j ← draw (rng.randbelow (i + 1))
    return swap xs i j) xs

/-- A time in the year before the reference. -/
def past : Gen σ Datetime := do
  let days ← draw rng.daysOfYear
  let seconds ← randint rng 0 86400
  return reference - (days + seconds * Datetime.second)

def customer (i : ℕ) : Gen σ Customer := do
  let plan ← weighted rng plans
  let days ← randint rng 120 1000
  let name ← draw rng.company
  let region ← choice rng regions
  return {
    id := "CUST-".toList ++ pad 3 i
    name := name
    plan := plan
    region := region
    createdAt := reference - days * Datetime.day }

def customers : Gen σ (List Customer) := (List.range' 1 nCustomers).mapM (customer rng)

def resolution (severity : Text) : Gen σ ℕ :=
  match severityMttrMin.lookup severity with
  | none => throw (.other "KeyError".toList)
  | some mean => do
    let minutes ← draw (rng.lognormal mean)
    return max (15 * Datetime.minute) minutes

def incident (customers : List Customer) (i : ℕ) : Gen σ Incident := do
  let severity ← weighted rng severityWeights
  let opened ← past rng
  -- Recent incidents may still be open; everything else is resolved.
  let isOpen ← optional (reference - opened < 4 * Datetime.day) (draw (rng.chance 50))
  let minutes ← optional (isOpen ≠ some true) (resolution rng severity)
  let service ← choice rng services
  let category ← weighted rng rootCauseWeights
  let known ← draw (rng.chance 70)
  let customer ← optional (known = true) (choice rng customers)
  return {
    id := "INC-".toList ++ pad 4 i
    severity := severity
    service := service
    openedAt := opened
    resolvedAt := minutes.map fun m => opened + m
    rootCauseCategory := category
    customerId := customer.map Customer.id }

def incidents (customers : List Customer) : Gen σ (List Incident) :=
  (List.range' 1 nIncidents).mapM (incident rng customers)

def ticketBody (who symptom service paragraph priority : Text) (created : Datetime)
    (workaround : Bool) : Text :=
  who ++ " reports ".toList ++ symptom ++ " affecting the ".toList ++ service ++
    " service. ".toList ++ paragraph ++ " The issue was first observed around ".toList ++
    fmt (some created) ++ " and assessed as priority ".toList ++ priority ++ ". ".toList ++
    if workaround then "On-call applied a temporary workaround while investigating.".toList
    else "Escalated to the service owning team for root-cause analysis.".toList

def ticket (customers : List Customer) (i : ℕ) : Gen σ Ticket := do
  let service ← choice rng services
  let symptom ← choice rng symptoms
  let priority ← weighted rng severityWeights
  let status ← weighted rng statuses
  let created ← past rng
  let hours ← optional (status = "resolved".toList ∨ status = "closed".toList) (randint rng 1 96)
  let known ← draw (rng.chance 85)
  let customer ← optional (known = true) (choice rng customers)
  let who := (customer.map Customer.name).getD "A customer".toList
  let paragraph ← draw (rng.paragraph 4)
  let workaround ← draw (rng.chance 50)
  return {
    id := "TCK-".toList ++ pad 4 i
    title := capitalize symptom ++ " on ".toList ++ service
    body := ticketBody who symptom service paragraph priority created workaround
    customerId := customer.map Customer.id
    priority := priority
    status := status
    createdAt := created
    resolvedAt := hours.map fun h => created + h * Datetime.hour }

def tickets (customers : List Customer) : Gen σ (List Ticket) :=
  (List.range' 1 nTickets).mapM (ticket rng customers)

def postmortemDoc (inc : Incident) : Gen σ Doc := do
  let symptom ← choice rng symptoms
  let detectMinutes ← randint rng 2 30
  let mitigateMinutes ← randint rng 30 120
  let detect := inc.openedAt + detectMinutes * Datetime.minute
  let mitigate := inc.openedAt + mitigateMinutes * Datetime.minute
  let resolved := inc.resolvedAt.getD (inc.openedAt + 2 * Datetime.hour)
  let title := "Postmortem ".toList ++ inc.id ++ ": ".toList ++ inc.service ++ " ".toList ++
    inc.severity
  let summary ← draw (rng.sentence 18)
  let cause ← draw (rng.paragraph 4)
  let remedy ← draw (rng.sentence 10)
  let impact ← draw (rng.sentence 14)
  return {
    docId := inc.id
    sourceType := "postmortem".toList
    title := title
    relPath := "postmortems/".toList ++ inc.id ++ ".md".toList
    markdown := unlines [
      "# ".toList ++ title,
      [],
      "**Service:** ".toList ++ inc.service,
      "**Severity:** ".toList ++ inc.severity,
      "**Opened:** ".toList ++ fmt (some inc.openedAt),
      "**Resolved:** ".toList ++ fmt inc.resolvedAt,
      "**Root cause category:** ".toList ++ inc.rootCauseCategory,
      [],
      "## Summary".toList,
      [],
      "A ".toList ++ inc.severity ++ " incident on the ".toList ++ inc.service ++
        " service caused ".toList ++ symptom ++ " for".toList,
      "affected customers. ".toList ++ summary,
      [],
      "## Timeline".toList,
      [],
      "- ".toList ++ fmt (some inc.openedAt) ++ ": Alerting fired for ".toList ++ symptom ++
        " on ".toList ++ inc.service ++ ".".toList,
      "- ".toList ++ fmt (some detect) ++ ": On-call acknowledged and began investigation.".toList,
      "- ".toList ++ fmt (some mitigate) ++
        ": Mitigation applied; customer impact began to subside.".toList,
      "- ".toList ++ fmt (some resolved) ++
        ": Service fully restored and incident resolved.".toList,
      [],
      "## Root cause".toList,
      [],
      "The root cause was categorized as **".toList ++ inc.rootCauseCategory ++ "**.".toList,
      cause ++ " The ".toList ++ inc.rootCauseCategory ++ " issue propagated".toList,
      "to the ".toList ++ inc.service ++ " service before automated checks caught it.".toList,
      [],
      "## Remediation".toList,
      [],
      "- ".toList ++ remedy,
      "- Added monitoring for ".toList ++ symptom ++ " on ".toList ++ inc.service ++ ".".toList,
      "- Documented the ".toList ++ inc.rootCauseCategory ++
        " failure mode in the runbook.".toList,
      [],
      "## Impact".toList,
      [],
      "Customer-facing impact lasted from ".toList ++ fmt (some inc.openedAt) ++ " until ".toList ++
        fmt (some resolved) ++ ".".toList,
      impact] }

def postmortems (incidents : List Incident) : Gen σ (List Doc) := do
  let candidates := incidents.filter fun i =>
    (i.severity = "P1".toList ∨ i.severity = "P2".toList) ∧ i.resolvedAt.isSome
  let candidates ← shuffle rng candidates
  (candidates.take nPostmortems).mapM (postmortemDoc rng)

def slug (topic : Text) : Text := (lower topic).map fun c => if c = ' ' then '-' else c

def runbook (i : ℕ) : Gen σ Doc := do
  let topic := topics.getD (i % topics.length) []
  let service := services.getD (i % services.length) []
  let docId := "RB-".toList ++ pad 3 (i + 1)
  let title := "Runbook: ".toList ++ topic ++ " (".toList ++ service ++ ")".toList
  let context ← draw (rng.sentence 16)
  let step1 ← draw (rng.sentence 10)
  let step3 ← draw (rng.sentence 10)
  let step5 ← draw (rng.sentence 10)
  let check ← draw (rng.sentence 12)
  return {
    docId := docId
    sourceType := "runbook".toList
    title := title
    relPath := "runbooks/".toList ++ docId ++ "-".toList ++ slug topic ++ ".md".toList
    markdown := unlines [
      "# ".toList ++ title,
      [],
      "**Applies to:** ".toList ++ service,
      "**Category:** operations".toList,
      [],
      "## When to use".toList,
      [],
      "Use this runbook when you observe symptoms related to \"".toList ++ lower topic ++
        "\" on the".toList,
      service ++ " service. ".toList ++ context,
      [],
      "## Procedure".toList,
      [],
      "1. ".toList ++ step1,
      "2. Check the ".toList ++ service ++
        " dashboards for error rate and latency anomalies.".toList,
      "3. ".toList ++ step3,
      "4. If impact is customer-facing, declare an incident and page the on-call.".toList,
      "5. ".toList ++ step5,
      [],
      "## Verification".toList,
      [],
      "- Confirm error rate and p95 latency for ".toList ++ service ++
        " have returned to baseline.".toList,
      "- ".toList ++ check,
      [],
      "## Escalation".toList,
      [],
      "If the issue is not resolved within the SLA window, escalate to the service".toList,
      "owner and the incident commander.".toList] }

def runbooks : Gen σ (List Doc) := (List.range nRunbooks).mapM (runbook rng)

def dataset : Gen σ Dataset := do
  let customers ← customers rng
  let incidents ← incidents rng customers
  let tickets ← tickets rng customers
  draw fun s => ((), rng.metrics s)
  let postmortems ← postmortems rng incidents
  let runbooks ← runbooks rng
  return { customers, incidents, tickets, postmortems, runbooks }

def generateDataset (seed : ℤ) : Except Exn Dataset :=
  match dataset rng (rng.seeded seed) with
  | .ok ds _ => .ok ds
  | .error e _ => .error e

end Draws

end GroundedOps.Seed
