import GroundedOps.Python.Sequences
import GroundedOps.Seed.Generated

/-!
# The gold set

Questions over known documents of a generated dataset. Half of them are about postmortems,
a third about runbooks, the others about tickets.
-/

namespace GroundedOps.Eval

open Python Seed Ingestion Program

structure GoldItem where
  question : Text
  relevantDocIds : List Text
  referenceAnswer : Text

/-- `s.replace(old, "")`; the number of characters of an occurrence yet to drop comes first. -/
def removeAll (old : Text) : ℕ → Text → Text
  | _, [] => []
  | skip + 1, _ :: s => removeAll old skip s
  | 0, c :: s => if old.isPrefixOf (c :: s) then removeAll old (old.length - 1) s
    else c :: removeAll old 0 s

section Build

variable {σ : Type} (rng : Rng σ)

def incidentsById (ds : Dataset) : Dict Text Incident :=
  Dict.ofList (ds.incidents.map fun inc => (inc.id, inc))

def postmortemItem (incidents : Dict Text Incident) (doc : Doc) : Gen σ GoldItem :=
  match incidents.get? doc.docId with
  | none => throw (.other "KeyError".toList)
  | some inc => pure {
      question := "Why did incident ".toList ++ inc.id ++ " on the ".toList ++ inc.service ++
        " service happen, and how was it remediated?".toList
      relevantDocIds := [inc.id]
      referenceAnswer := "The ".toList ++ inc.severity ++ " incident on ".toList ++ inc.service ++
        " was caused by a ".toList ++ inc.rootCauseCategory ++
        " issue and remediated per the postmortem.".toList }

def runbookItem (doc : Doc) : GoldItem :=
  let topic := removeAll "Runbook: ".toList 0 doc.title
  { question := "What is the operational procedure described in: ".toList ++ topic ++ "?".toList
    relevantDocIds := [doc.docId]
    referenceAnswer := "Follow the runbook steps for: ".toList ++ topic ++ ".".toList }

def ticketItem (ticket : Ticket) : GoldItem where
  question := "What issue did support ticket ".toList ++ ticket.id ++ " report?".toList
  relevantDocIds := [ticket.id]
  referenceAnswer := ticket.title

def goldItems (ds : Dataset) (n : ℤ) : Gen σ (List GoldItem) := do
  -- ~half from postmortems (root cause / remediation questions)
  let postmortems ← shuffle rng ds.postmortems
  let aboutIncidents ← (sliceTo postmortems (n / 2)).mapM (postmortemItem (incidentsById ds))
  -- ~a third from runbooks (procedure questions)
  let runbooks ← shuffle rng ds.runbooks
  let items := aboutIncidents ++ (sliceTo runbooks (n / 3)).map runbookItem
  -- remainder from tickets (issue-description questions)
  let tickets ← shuffle rng ds.tickets
  let items := items ++ (sliceTo tickets (n - items.length)).map ticketItem
  return sliceTo items n

def buildGold (seed n : ℤ) : Except Exn (List GoldItem) := do
  let ds ← generateDataset rng seed
  match goldItems rng ds n (rng.seeded (seed + 1)) with
  | .ok items _ => .ok items
  | .error e _ => .error e

/-! ### What the items ask for -/

/-- The documents of the gold items, from the shuffled parts of a dataset. -/
def goldIds (postmortems runbooks : List Doc) (tickets : List Ticket) (n : ℤ) : List Text :=
  let about := (sliceTo postmortems (n / 2)).map Doc.docId ++
    (sliceTo runbooks (n / 3)).map Doc.docId
  sliceTo (about ++ (sliceTo tickets (n - about.length)).map Ticket.id) n

theorem postmortemItem_ids {ds : Dataset} (h : Generated ds) {doc : Doc}
    (hdoc : doc ∈ ds.postmortems) : Yields (fun item => item.relevantDocIds = [doc.docId])
      (postmortemItem (σ := σ) (incidentsById ds) doc) := by
  obtain ⟨-, -, -, inc, hinc, hid⟩ := h.postmortem_fileId hdoc
  have hnodup : ((ds.incidents.map fun inc => (inc.id, inc)).map Prod.fst).Nodup := by
    rw [List.map_map]
    exact h.nodup_incidents
  have hget : (incidentsById ds).get? doc.docId = some inc := by
    rw [incidentsById, Dict.get?_eq_some, Dict.items_ofList hnodup]
    exact List.mem_map.mpr ⟨inc, hinc, by rw [hid]⟩
  rw [postmortemItem, hget, ← hid]
  exact yields_pure rfl

theorem goldItems_ids {ds : Dataset} (h : Generated ds) (n : ℤ) :
    Yields (fun items => ∃ postmortems runbooks tickets, postmortems.Perm ds.postmortems ∧
      runbooks.Perm ds.runbooks ∧ tickets.Perm ds.tickets ∧
      items.map GoldItem.relevantDocIds =
        (goldIds postmortems runbooks tickets n).map fun id => [id]) (goldItems rng ds n) := by
  apply yields_bind (shuffle_perm rng _)
  intro postmortems hpostmortems
  have hitem : ∀ doc ∈ sliceTo postmortems (n / 2),
      Yields (fun item => item.relevantDocIds = [doc.docId])
        (postmortemItem (σ := σ) (incidentsById ds) doc) :=
    fun doc hdoc => postmortemItem_ids h (hpostmortems.subset (sliceTo_subset _ _ hdoc))
  apply yields_bind (yields_mapM _ hitem)
  intro aboutIncidents hids
  apply yields_bind (shuffle_perm rng _)
  intro runbooks hrunbooks
  apply yields_bind (shuffle_perm rng _)
  intro tickets htickets
  apply yields_pure
  refine ⟨postmortems, runbooks, tickets, hpostmortems, hrunbooks, htickets, ?_⟩
  have hincidents := map_eq_map_of_forall₂ hids
  have hlength : (aboutIncidents ++ (sliceTo runbooks (n / 3)).map runbookItem).length =
      ((sliceTo postmortems (n / 2)).map Doc.docId ++
        (sliceTo runbooks (n / 3)).map Doc.docId).length := by
    simp only [List.length_append, List.length_map, hids.length_eq]
  rw [map_sliceTo GoldItem.relevantDocIds, goldIds, ← hlength, map_sliceTo fun id : Text => [id]]
  simp only [List.map_append, List.map_map, hincidents]
  rfl

/-- The runbooks have a share in the items. -/
def AsksForRunbooks (n : ℤ) : Prop := 3 ≤ n ∨ -87 ≤ n ∧ n < 0

theorem sliceTo_runbooks {α : Type} {runbooks : List α} (h : runbooks.length = nRunbooks) (n : ℤ) :
    sliceTo runbooks (n / 3) ≠ [] ↔ AsksForRunbooks n := by
  rw [← List.length_pos_iff, length_sliceTo, h, AsksForRunbooks, nRunbooks]
  split_ifs <;> omega

theorem mem_take_middle {α : Type} {before after : List α} {x : α} {k : ℕ}
    (h : before.length < k) : x ∈ (before ++ x :: after).take k := by
  obtain ⟨m, hm⟩ : ∃ m, k - before.length = m + 1 := ⟨k - before.length - 1, by omega⟩
  rw [List.take_append, hm, List.take_succ_cons]
  simp

/-- Every item about a runbook is kept when the items are cut to `n`. -/
theorem exists_runbook_mem_goldIds {postmortems runbooks : List Doc} {tickets : List Ticket}
    {n : ℤ} (hpostmortems : postmortems.length ≤ nPostmortems)
    (hrunbooks : runbooks.length = nRunbooks) (htickets : tickets.length = nTickets)
    (hn : AsksForRunbooks n) : ∃ d ∈ runbooks, d.docId ∈ goldIds postmortems runbooks tickets n := by
  have hp := length_sliceTo postmortems (n / 2)
  have hr := length_sliceTo runbooks (n / 3)
  obtain ⟨d, rest, hrest⟩ := List.exists_cons_of_ne_nil ((sliceTo_runbooks hrunbooks n).mpr hn)
  have hd : d ∈ runbooks := sliceTo_subset runbooks (n / 3) (by rw [hrest]; simp)
  refine ⟨d, hd, ?_⟩
  rw [goldIds]
  have ht := length_sliceTo tickets (n - ((sliceTo postmortems (n / 2)).map Doc.docId ++
    (sliceTo runbooks (n / 3)).map Doc.docId).length)
  rw [List.length_append, List.length_map, List.length_map] at ht ⊢
  generalize sliceTo tickets _ = fromTickets at ht ⊢
  simp only [hrest, List.map_cons, List.append_assoc, List.cons_append, List.length_cons]
    at hr ht ⊢
  simp only [AsksForRunbooks, nPostmortems, nRunbooks, nTickets] at hn hpostmortems hrunbooks htickets
  rw [sliceTo]
  split_ifs with hpos
  · apply mem_take_middle
    rw [List.length_map, hp]
    split_ifs <;> omega
  · apply mem_take_middle
    simp only [List.length_append, List.length_cons, List.length_map]
    split_ifs at hp hr ht <;> omega

end Build

end GroundedOps.Eval
