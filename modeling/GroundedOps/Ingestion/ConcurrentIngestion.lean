import GroundedOps.Ingestion.Transactions
import GroundedOps.Library.Transition

/-!
# Concurrent ingestions

Any number of calls write to one table. A call embeds first and then commits its
transactions one by one; between two of them the others commit theirs, and a call may fail
or stop before any of them.
-/

namespace GroundedOps.Ingestion

open Python Program Transition ChunkTable

variable {F : Type} {dim : ℕ}

/-- The arguments of a call of `ingest_documents`, with its time stamp. -/
structure Call (F : Type) where
  enc : Tokenizer
  provider : EmbeddingProvider F
  batchSize : ℕ
  createdAt : ℤ
  docs : List SourceDoc

namespace Call

def rows (c : Call F) : Except Exn (List (ChunkRow F)) :=
  chunkRows c.enc c.provider c.batchSize c.createdAt c.docs

/-- The call has these rows for a version of the document. -/
def Ingests (c : Call F) (docId : Text) (rs : List (ChunkRow F)) : Prop :=
  ∃ doc ∈ c.docs, doc.docId = docId ∧
    DocRows c.enc (fun _ _ => True) c.provider.modelName c.createdAt doc rs ∧
      ∃ rows, c.rows = .ok rows ∧ rs <:+: rows

end Call

/-- The table, the calls that have begun to write and what each has left to do. -/
structure Writers (F : Type) (dim : ℕ) where
  table : ChunkTable F dim := .empty
  calls : List (Call F) := []
  pending : List (List (Transaction F)) := []

inductive Act (F : Type)
  | start (call : Call F)
  | commit (i : ℕ)
  | stop (i : ℕ)

inductive Steps : Writers F dim → Act F → Writers F dim → Prop
  | start {s} (call : Call F) (rows) : call.rows = .ok rows →
      Steps s (.start call)
        { s with
          calls := s.calls ++ [call]
          pending := s.pending ++ [transactions rows call.docs] }
  | commit {s} (i tx rest table) : s.pending[i]? = some (tx :: rest) → tx.run s.table = .ok table →
      Steps s (.commit i) { s with table, pending := s.pending.set i rest }
  | stop {s} (i) : Steps s (.stop i) { s with pending := s.pending.set i [] }

/-- The step commits the transaction. -/
def Commits (x : Step (Writers F dim) (Act F)) (tx : Transaction F) : Prop :=
  ∃ i rest, x.label = .commit i ∧ x.before.pending[i]? = some (tx :: rest)

/-- The transaction is about the document. -/
def Transaction.Touches : Transaction F → Text → Prop
  | .upsert rows, docId => ∃ r ∈ rows, r.docId = docId
  | .prune docId' _, docId => docId' = docId

/-- The table shows these rows of the document and no others. -/
def Shows (t : ChunkTable F dim) (docId : Text) (rs : List (ChunkRow F)) : Prop :=
  ((t.rowsOf docId).map ChunkRow.undated).Perm (rs.map ChunkRow.undated)

/-- The rows of the document are those of one ingested version, or there are none. -/
def Whole (s : Writers F dim) (docId : Text) : Prop :=
  ∃ rs, (rs = [] ∨ ∃ call ∈ s.calls, call.Ingests docId rs) ∧ Shows s.table docId rs

/-- The upsert finds no row behind its own, the prune cuts all rows or none. -/
def Transaction.Fits : Transaction F → ChunkTable F dim → Prop
  | .upsert rows, t => ∀ r ∈ rows, ∀ x ∈ t.rowsOf r.docId, x.chunkIndex < rows.length
  | .prune docId keep, t =>
    (∀ x ∈ t.rowsOf docId, x.chunkIndex < keep) ∨ ∀ x ∈ t.rowsOf docId, keep ≤ x.chunkIndex

instance : (tx : Transaction F) → (t : ChunkTable F dim) → Decidable (tx.Fits t)
  | .upsert rows, t =>
    inferInstanceAs (Decidable (∀ r ∈ rows, ∀ x ∈ t.rowsOf r.docId, x.chunkIndex < rows.length))
  | .prune docId keep, t =>
    inferInstanceAs (Decidable ((∀ x ∈ t.rowsOf docId, x.chunkIndex < keep) ∨
      ∀ x ∈ t.rowsOf docId, keep ≤ x.chunkIndex))

/-! ### One step -/

/-- The transaction is one of a call. -/
def Issued (calls : List (Call F)) (tx : Transaction F) : Prop :=
  ∃ call ∈ calls, ∃ rows, call.rows = .ok rows ∧ tx ∈ transactions rows call.docs

/-- What a committed transaction can do. -/
theorem Issued.run_cases {calls : List (Call F)} {tx : Transaction F} (h : Issued calls tx)
    {t t' : ChunkTable F dim} (ht : t.Addressed) (hrun : tx.run t = .ok t') :
    (tx = .upsert [] ∧ t' = t) ∨
    (∃ docId rs call, tx = .upsert rs ∧ rs ≠ [] ∧ call ∈ calls ∧ call.Ingests docId rs ∧
      Upserted docId rs t t') ∨
    ∃ docId keep, tx = .prune docId keep ∧ Pruned docId keep t t' := by
  obtain ⟨call, hcall, rows, hrows, hmem⟩ := h
  obtain ⟨doc, hdoc, htx⟩ := List.mem_flatMap.mp hmem
  rcases List.mem_pair.mp htx with rfl | rfl
  · by_cases hnil : own rows doc.docId = []
    · rw [hnil] at hrun ⊢
      exact .inl ⟨rfl, (Except.ok.inj hrun).symm⟩
    · obtain ⟨blocks, hblocks, rfl⟩ := chunkRows_blocks hrows
      obtain ⟨hok, -⟩ := upsertChunks_eq_ok.mp hrun
      obtain ⟨doc', hmem', hid', hinside, hdocRows⟩ :=
        Blocks.own_eq_block hblocks (List.mem_map_of_mem hdoc) hok.2
      refine .inr (.inl ⟨doc.docId, _, call, rfl, hnil, hcall, ?_, ?_⟩)
      · exact ⟨doc', hmem', hid', hdocRows, _, hrows, hinside⟩
      · exact upserted (hid' ▸ hdocRows.version) ht hrun
  · obtain rfl := Except.ok.inj hrun
    exact .inr (.inr ⟨_, _, rfl, pruned ht _ _⟩)

/-! ### One call alone -/

/-- A call that is alone commits its transactions until one fails. -/
theorem commits_run {txs : List (Transaction F)} {s : Writers F dim} {i : ℕ}
    (hi : s.pending[i]? = some txs) :
    ∃ steps s', Run Steps s steps s' ∧ s'.table = final (runAll txs s.table) := by
  induction txs generalizing s with
  | nil => exact ⟨[], s, .nil, rfl⟩
  | cons tx txs ih =>
    rw [runAll_cons]
    cases hrun : tx.run s.table with
    | error e => exact ⟨[], s, .nil, rfl⟩
    | ok table =>
      have hnext : (s.pending.set i txs)[i]? = some txs := by
        obtain ⟨hlt, -⟩ := List.getElem?_eq_some_iff.mp hi
        rw [List.getElem?_set_self hlt]
      obtain ⟨steps, s', hsteps, htable⟩ :=
        ih (s := { s with table, pending := s.pending.set i txs }) hnext
      exact ⟨_, s', (Run.nil.snoc (.commit i tx txs table hi hrun)).append hsteps, htable⟩

/-- So `ingest_documents` is one of the schedules. -/
theorem ingestDocuments_run (s : Writers F dim) (c : Call F) :
    ∃ steps s', Run Steps s steps s' ∧
      s'.table = final (ingestDocuments c.enc c.provider c.batchSize c.createdAt c.docs s.table) := by
  rw [ingestDocuments_eq]
  cases hrows : chunkRows c.enc c.provider c.batchSize c.createdAt c.docs with
  | error e => exact ⟨[], s, .nil, rfl⟩
  | ok rows =>
    dsimp only
    rw [final_bind_pure, ingestRows_eq, final_bind_pure]
    obtain ⟨steps, s', hsteps, htable⟩ := commits_run
      (s := { s with
        calls := s.calls ++ [c]
        pending := s.pending ++ [transactions rows c.docs] })
      (List.getElem?_concat_length (l := s.pending))
    exact ⟨_, s', (Run.nil.snoc (.start c rows hrows)).append hsteps, htable⟩

/-! ### Every run -/

/-- Row `i` of the document is row `i` of a version that some call has ingested. -/
def Sourced (calls : List (Call F)) (docId : Text) (i : ℕ) (r : ChunkRow F) : Prop :=
  ∃ call ∈ calls, ∃ version, call.Ingests docId version ∧
    version[i]?.map ChunkRow.undated = some r.undated

theorem Sourced.append {calls : List (Call F)} {docId : Text} {i : ℕ} {r : ChunkRow F}
    (h : Sourced calls docId i r) (call : Call F) : Sourced (calls ++ [call]) docId i r := by
  obtain ⟨c, hc, hversion⟩ := h
  exact ⟨c, List.mem_append_left _ hc, hversion⟩

theorem Issued.append {calls : List (Call F)} {tx : Transaction F} (h : Issued calls tx)
    (call : Call F) : Issued (calls ++ [call]) tx := by
  obtain ⟨c, hc, hrows⟩ := h
  exact ⟨c, List.mem_append_left _ hc, hrows⟩

structure Sound (s : Writers F dim) : Prop where
  addressed : s.table.Addressed
  issued : ∀ txs ∈ s.pending, ∀ tx ∈ txs, Issued s.calls tx
  column : ∀ docId, ∃ n, ∀ i, (s.table.cell docId i).isSome ↔ i < n
  sourced : ∀ docId i r, s.table.cell docId i = some r → Sourced s.calls docId i r

theorem sound_start : Sound ({} : Writers F dim) where
  addressed := addressed_empty
  issued := by simp
  column docId := ⟨0, fun i => by simp [cell, ChunkTable.empty, Dict.get?, Dict.empty]⟩
  sourced docId i r h := by
    cases h

theorem Upserted.column {docId : Text} {rs : List (ChunkRow F)} {t t' : ChunkTable F dim}
    (h : Upserted docId rs t t') (ht : ∀ d, ∃ n, ∀ i, (t.cell d i).isSome ↔ i < n) (d : Text) :
    ∃ n, ∀ i, (t'.cell d i).isSome ↔ i < n := by
  obtain ⟨n, hn⟩ := ht d
  by_cases hd : d = docId
  · subst hd
    refine ⟨max n rs.length, fun i => ?_⟩
    cases hr : rs[i]? with
    | some r =>
      obtain ⟨hlt, -⟩ := List.getElem?_eq_some_iff.mp hr
      rw [h.written i r hr, lt_max_iff]
      simp [hlt]
    | none =>
      have hle := List.getElem?_eq_none_iff.mp hr
      rw [h.behind i hr, hn, lt_max_iff]
      omega
  · exact ⟨n, fun i => by rw [h.others d i hd, hn]⟩

theorem Pruned.column {docId : Text} {keep : ℕ} {t t' : ChunkTable F dim}
    (h : Pruned docId keep t t') (ht : ∀ d, ∃ n, ∀ i, (t.cell d i).isSome ↔ i < n) (d : Text) :
    ∃ n, ∀ i, (t'.cell d i).isSome ↔ i < n := by
  obtain ⟨n, hn⟩ := ht d
  by_cases hd : d = docId
  · subst hd
    refine ⟨min n keep, fun i => ?_⟩
    rw [lt_min_iff]
    by_cases hi : i < keep
    · rw [h.kept i hi, hn]
      omega
    · rw [h.cut i (by omega)]
      simp [hi]
  · exact ⟨n, fun i => by rw [h.others d i hd, hn]⟩

theorem Sound.mem_of_get {s : Writers F dim} (h : Sound s) {i : ℕ} {tx : Transaction F}
    {rest : List (Transaction F)} (hi : s.pending[i]? = some (tx :: rest)) :
    Issued s.calls tx ∧ ∀ tx ∈ rest, Issued s.calls tx := by
  have hall := h.issued _ (List.mem_of_getElem? hi)
  exact ⟨hall tx List.mem_cons_self, fun tx htx => hall tx (List.mem_cons_of_mem _ htx)⟩

theorem Sound.step {s s' : Writers F dim} {act : Act F} (h : Sound s) (hstep : Steps s act s') :
    Sound s' := by
  cases hstep with
  | start call rows hrows =>
    refine ⟨h.addressed, ?_, h.column, fun d i r hr => (h.sourced d i r hr).append call⟩
    intro txs htxs tx htx
    rcases List.mem_append.mp htxs with htxs | htxs
    · exact (h.issued txs htxs tx htx).append call
    · obtain rfl := List.mem_singleton.mp htxs
      exact ⟨call, by simp, rows, hrows, htx⟩
  | commit i tx rest table hi hrun =>
    obtain ⟨hissued, hrest⟩ := h.mem_of_get hi
    have hpending : ∀ txs ∈ s.pending.set i rest, ∀ tx ∈ txs, Issued s.calls tx := by
      intro txs htxs
      rcases List.mem_or_eq_of_mem_set htxs with htxs | rfl
      · exact h.issued txs htxs
      · exact hrest
    rcases hissued.run_cases h.addressed hrun with
      ⟨-, rfl⟩ | ⟨docId, rs, call, -, -, hcall, hingests, hup⟩ | ⟨docId, keep, -, hpruned⟩
    · exact ⟨h.addressed, hpending, h.column, h.sourced⟩
    · refine ⟨hup.addressed, hpending, hup.column h.column, ?_⟩
      intro d i r hr
      by_cases hd : d = docId
      · subst hd
        cases hrow : rs[i]? with
        | some x =>
          rw [hup.written i x hrow] at hr
          obtain rfl := Option.some.inj hr
          exact ⟨call, hcall, rs, hingests, by rw [hrow]; rfl⟩
        | none =>
          rw [hup.behind i hrow] at hr
          exact h.sourced d i r hr
      · rw [hup.others d i hd] at hr
        exact h.sourced d i r hr
    · refine ⟨hpruned.addressed, hpending, hpruned.column h.column, ?_⟩
      intro d i r hr
      by_cases hd : d = docId
      · subst hd
        by_cases hi : i < keep
        · rw [hpruned.kept i hi] at hr
          exact h.sourced d i r hr
        · rw [hpruned.cut i (by omega)] at hr
          cases hr
      · rw [hpruned.others d i hd] at hr
        exact h.sourced d i r hr
  | stop i =>
    refine ⟨h.addressed, ?_, h.column, h.sourced⟩
    intro txs htxs
    rcases List.mem_or_eq_of_mem_set htxs with htxs | rfl
    · exact h.issued txs htxs
    · simp

theorem sound_of_run {s s' : Writers F dim} {steps : List (Step (Writers F dim) (Act F))}
    (h : Run Steps s steps s') (hs : Sound s) : Sound s' :=
  h.invariant_of (P := fun _ => True) (fun _ _ _ ht hstep _ => ht.step hstep) (fun _ _ => trivial) hs

/-! ### Whole versions -/

/-- The cells of the document spell these rows. -/
def Spells (t : ChunkTable F dim) (docId : Text) (rs : List (ChunkRow F)) : Prop :=
  ∀ i, (t.cell docId i).map ChunkRow.undated = rs[i]?.map ChunkRow.undated

theorem Spells.shows {t : ChunkTable F dim} {docId : Text} {rs : List (ChunkRow F)}
    (h : Spells t docId rs) (ht : t.Addressed) : Shows t docId rs := by
  have hcolumn : ∀ i, (t.cell docId i).isSome ↔ i < rs.length := by
    intro i
    rw [← Option.isSome_map (f := ChunkRow.undated), h i, Option.isSome_map]
    simp
  obtain ⟨stored, -, hstored⟩ := t.exists_column hcolumn
  have hmap : stored.map ChunkRow.undated = rs.map ChunkRow.undated := by
    apply List.ext_getElem?
    intro i
    rw [List.getElem?_map, List.getElem?_map, ← hstored, h]
  rw [Shows, ← hmap]
  exact (ht.rowsOf_perm hstored).map _

theorem Upserted.written_undated {docId : Text} {rs : List (ChunkRow F)} {t t' : ChunkTable F dim}
    (h : Upserted docId rs t t') {i : ℕ} {r : ChunkRow F} (hr : rs[i]? = some r) :
    (t'.cell docId i).map ChunkRow.undated = some r.undated := by
  rw [h.written i r hr]
  rfl

theorem Upserted.spells {docId : Text} {rs : List (ChunkRow F)} {t t' : ChunkTable F dim}
    (h : Upserted docId rs t t') (hshort : ∀ i, rs[i]? = none → t.cell docId i = none) :
    Spells t' docId rs := by
  intro i
  cases hr : rs[i]? with
  | some r => exact h.written_undated hr
  | none => rw [h.behind i hr, hshort i hr]

theorem Pruned.spells {docId : Text} {rs : List (ChunkRow F)} {t t' : ChunkTable F dim}
    (h : Pruned docId rs.length t t') (hfirst : ∀ i r, rs[i]? = some r →
      (t.cell docId i).map ChunkRow.undated = some r.undated) : Spells t' docId rs := by
  intro i
  cases hr : rs[i]? with
  | some r =>
    obtain ⟨hlt, -⟩ := List.getElem?_eq_some_iff.mp hr
    rw [h.kept i hlt, hfirst i r hr]
    rfl
  | none => rw [h.cut i (List.getElem?_eq_none_iff.mp hr)]

/-- Where no stored row may stand the cell is empty. -/
theorem cell_eq_none {t : ChunkTable F dim} (ht : t.Addressed) {docId : Text} {p : ℕ → Prop}
    (h : ∀ x ∈ t.rowsOf docId, p x.chunkIndex) {i : ℕ} (hi : ¬ p i) : t.cell docId i = none := by
  rw [Option.eq_none_iff_forall_ne_some]
  intro x hx
  have hp := h x (ht.mem_rowsOf.mpr ⟨i, hx⟩)
  rw [(ht.cell_eq_some hx).2] at hp
  exact hi hp

/-- A prune that fits cuts nothing or everything. -/
theorem Pruned.spells_of_fits {docId : Text} {keep : ℕ} {rs : List (ChunkRow F)}
    {t t' : ChunkTable F dim} (h : Pruned docId keep t t') (ht : t.Addressed)
    (hfits : (Transaction.prune docId keep).Fits t) (hspells : Spells t docId rs) :
    Spells t' docId rs ∨ Spells t' docId [] := by
  rcases hfits with hall | hnone
  · refine .inl fun i => ?_
    by_cases hi : i < keep
    · rw [h.kept i hi, hspells i]
    · rw [h.cut i (by omega), ← hspells i, cell_eq_none (p := (· < keep)) ht hall hi]
  · refine .inr fun i => ?_
    by_cases hi : i < keep
    · rw [h.kept i hi, cell_eq_none (p := (keep ≤ ·)) ht hnone hi.not_ge]
      rfl
    · rw [h.cut i (by omega)]
      rfl

/-- One version of the document, or none, is spelled. -/
def WholeCells (s : Writers F dim) (docId : Text) : Prop :=
  ∃ rs, (rs = [] ∨ ∃ call ∈ s.calls, call.Ingests docId rs) ∧ Spells s.table docId rs

/-- A transaction that fits keeps the versions whole. -/
theorem WholeCells.step {s s' : Writers F dim} {act : Act F} (hs : Sound s) {docId : Text}
    (h : WholeCells s docId) (hstep : Steps s act s')
    (hfits : ∀ tx, Commits ⟨s, act, s'⟩ tx → tx.Fits s.table) : WholeCells s' docId := by
  obtain ⟨rs, hrs, hspells⟩ := h
  cases hstep with
  | start call rows hrows =>
    refine ⟨rs, hrs.imp_right ?_, hspells⟩
    rintro ⟨c, hc, hingests⟩
    exact ⟨c, List.mem_append_left _ hc, hingests⟩
  | commit i tx rest table hi hrun =>
    have hfit := hfits tx ⟨i, rest, rfl, hi⟩
    rcases (hs.mem_of_get hi).1.run_cases hs.addressed hrun with
      ⟨-, rfl⟩ | ⟨d, new, call, rfl, hne, hcall, hingests, hup⟩ | ⟨d, keep, rfl, hpruned⟩
    · exact ⟨rs, hrs, hspells⟩
    · by_cases hd : docId = d
      · subst hd
        obtain ⟨r, hr⟩ := List.exists_mem_of_ne_nil new hne
        have hdoc : r.docId = docId := by
          obtain ⟨doc, -, hdoc, hrows, -⟩ := hingests
          rw [hrows.version.docId_eq r hr, hdoc]
        have hlt := hfit r hr
        rw [hdoc] at hlt
        refine ⟨new, .inr ⟨call, hcall, hingests⟩, hup.spells fun j hj => ?_⟩
        exact cell_eq_none (p := (· < new.length)) hs.addressed hlt (by simpa using hj)
      · refine ⟨rs, hrs, fun j => ?_⟩
        rw [hup.others docId j hd, hspells j]
    · by_cases hd : docId = d
      · subst hd
        rcases hpruned.spells_of_fits hs.addressed hfit hspells with hsame | hnone
        · exact ⟨rs, hrs, hsame⟩
        · exact ⟨[], .inl rfl, hnone⟩
      · refine ⟨rs, hrs, fun j => ?_⟩
        rw [hpruned.others docId j hd, hspells j]
  | stop i => exact ⟨rs, hrs, hspells⟩

theorem whole_of_run {s : Writers F dim} {steps : List (Step (Writers F dim) (Act F))}
    (h : Run Steps {} steps s) (hfits : ∀ x ∈ steps, ∀ tx, Commits x tx → tx.Fits x.before.table)
    (docId : Text) : Whole s docId := by
  have hstart : Sound ({} : Writers F dim) ∧ WholeCells ({} : Writers F dim) docId :=
    ⟨sound_start, [], .inl rfl, fun i => rfl⟩
  have hend := h.invariant_of (I := fun s => Sound s ∧ WholeCells s docId)
    (P := fun x => ∀ tx, Commits x tx → tx.Fits x.before.table)
    (fun t act u ht hstep hfit => ⟨ht.1.step hstep, ht.2.step ht.1 hstep hfit⟩) hfits hstart
  obtain ⟨hsound, rs, hrs, hspells⟩ := hend
  exact ⟨rs, hrs, hspells.shows hsound.addressed⟩

/-! ### Behind the transactions of one call -/

/-- The rows stand in front of the document's column. -/
def Leads (docId : Text) (rs : List (ChunkRow F)) (t : ChunkTable F dim) : Prop :=
  ∀ i r, rs[i]? = some r → (t.cell docId i).map ChunkRow.undated = some r.undated

/-- A step that does not touch the document leaves its cells alone. -/
theorem Sound.cell_step {s s' : Writers F dim} {act : Act F} (h : Sound s)
    (hstep : Steps s act s') {docId : Text}
    (hother : ∀ tx, Commits ⟨s, act, s'⟩ tx → ¬ tx.Touches docId) (i : ℕ) :
    s'.table.cell docId i = s.table.cell docId i := by
  cases hstep with
  | start => rfl
  | commit j tx rest table hj hrun =>
    have hno := hother tx ⟨j, rest, rfl, hj⟩
    rcases (h.mem_of_get hj).1.run_cases h.addressed hrun with
      ⟨-, rfl⟩ | ⟨d, new, call, rfl, hne, hcall, hingests, hup⟩ | ⟨d, keep, rfl, hpruned⟩
    · rfl
    · apply hup.others
      rintro rfl
      obtain ⟨r, hr⟩ := List.exists_mem_of_ne_nil new hne
      obtain ⟨doc, -, hdoc, hrows, -⟩ := hingests
      exact hno ⟨r, hr, by rw [hrows.version.docId_eq r hr, hdoc]⟩
    · apply hpruned.others
      rintro rfl
      exact hno rfl
  | stop => rfl

theorem Sound.leads_run {s s' : Writers F dim} {steps : List (Step (Writers F dim) (Act F))}
    (h : Run Steps s steps s') (hs : Sound s) {docId : Text} {rs : List (ChunkRow F)}
    (hother : ∀ x ∈ steps, ∀ tx, Commits x tx → ¬ tx.Touches docId)
    (hleads : Leads docId rs s.table) : Leads docId rs s'.table := by
  have hend := h.invariant_of (I := fun s => Sound s ∧ Leads docId rs s.table)
    (P := fun x => ∀ tx, Commits x tx → ¬ tx.Touches docId)
    (fun t act u ht hstep hno => ⟨ht.1.step hstep, fun i r hr => by
      rw [ht.1.cell_step hstep hno i, ht.2 i r hr]⟩) hother ⟨hs, hleads⟩
  exact hend.2

/-- When the two transactions of a call for a document have run, with no other transaction
on the document in between, its rows are those of the call. -/
theorem shows_own {s : Writers F dim} {before between : List (Step (Writers F dim) (Act F))}
    {x y : Step (Writers F dim) (Act F)}
    (h : Run Steps {} (before ++ x :: (between ++ [y])) s) {docId : Text}
    {rs : List (ChunkRow F)} (hupsert : Commits x (.upsert rs)) (hdoc : ∀ r ∈ rs, r.docId = docId)
    (hprune : Commits y (.prune docId rs.length))
    (hother : ∀ z ∈ between, ∀ tx, Commits z tx → ¬ tx.Touches docId) :
    Shows s.table docId rs := by
  rw [← List.singleton_append, ← List.append_assoc, ← List.append_assoc] at h
  obtain ⟨v, last, rfl, hrun, hlast⟩ := h.last
  obtain ⟨u, hrun, hbetween⟩ := hrun.split
  obtain ⟨t, first, rfl, hrun, hfirst⟩ := hrun.last
  have ht := sound_of_run hrun sound_start
  have hu := ht.step hfirst
  have hleads : Leads docId rs u.table := by
    obtain ⟨i, rest, rfl, hi⟩ := hupsert
    cases hfirst with
    | commit _ tx rest' table hi' hok =>
      obtain ⟨rfl, rfl⟩ := List.cons.inj (Option.some.inj (hi'.symm.trans hi))
      rcases (ht.mem_of_get hi').1.run_cases ht.addressed hok with
        ⟨heq, -⟩ | ⟨d, new, call, heq, hne, -, hingests, hup⟩ | ⟨d, keep, heq, -⟩
      · cases heq
        intro j r hr
        cases hr
      · cases heq
        obtain ⟨r, hr⟩ := List.exists_mem_of_ne_nil rs hne
        obtain ⟨doc, -, hid, hrows, -⟩ := hingests
        obtain rfl : d = docId := by
          rw [← hid, ← hrows.version.docId_eq r hr, hdoc r hr]
        intro j r hr
        exact hup.written_undated hr
      · cases heq
  have hv := sound_of_run hbetween hu
  have hbefore := hu.leads_run hbetween hother hleads
  obtain ⟨i, rest, rfl, hi⟩ := hprune
  cases hlast with
  | commit _ tx rest' table hi' hok =>
    obtain ⟨rfl, rfl⟩ := List.cons.inj (Option.some.inj (hi'.symm.trans hi))
    obtain rfl := Except.ok.inj hok
    have hpruned := pruned hv.addressed docId rs.length
    exact (hpruned.spells hbefore).shows hpruned.addressed

/-- In every committed state the rows of a document have no gap, and each is a row of one
ingested version. They are whole versions as long as every transaction fits, and behind the
two transactions of a call. -/
theorem committed_rows {s : Writers F dim} {steps : List (Step (Writers F dim) (Act F))}
    (h : Run Steps {} steps s) (docId : Text) :
    (∃ rs, (s.table.rowsOf docId).Perm rs ∧
      ∀ i r, rs[i]? = some r → Sourced s.calls docId i r) ∧
    ((∀ x ∈ steps, ∀ tx, Commits x tx → tx.Fits x.before.table) → Whole s docId) ∧
    ∀ before x between y rs, steps = before ++ x :: (between ++ [y]) →
      Commits x (.upsert rs) → (∀ r ∈ rs, r.docId = docId) → Commits y (.prune docId rs.length) →
      (∀ z ∈ between, ∀ tx, Commits z tx → ¬ tx.Touches docId) → Shows s.table docId rs := by
  refine ⟨?_, fun hfits => whole_of_run h hfits docId, ?_⟩
  · have hs := sound_of_run h sound_start
    obtain ⟨n, hn⟩ := hs.column docId
    obtain ⟨rs, -, hcells⟩ := s.table.exists_column hn
    refine ⟨rs, hs.addressed.rowsOf_perm hcells, ?_⟩
    intro i r hr
    exact hs.sourced docId i r ((hcells i).trans hr)
  · rintro before x between y rs rfl hupsert hdoc hprune hother
    exact shows_own h hupsert hdoc hprune hother

/-! ### A document that shrinks -/

def rollback (text : Text) : Call ℕ where
  enc := charTokenizer
  provider := lengthProvider
  batchSize := 64
  createdAt := 0
  docs := [⟨"RB-1".toList, "runbook".toList, "Rollback".toList, text, true⟩]

def rollbackRows (text : Text) : List (ChunkRow ℕ) := (rollback text).rows.toOption.getD []

def begun (text : Text) (s : Writers ℕ 1) : Writers ℕ 1 :=
  { s with
    calls := s.calls ++ [rollback text]
    pending := s.pending ++ [transactions (rollbackRows text) (rollback text).docs] }

/-- The writers behind the next transaction of a call. -/
def committed (i : ℕ) (s : Writers ℕ 1) : Writers ℕ 1 :=
  match s.pending[i]? with
  | some (tx :: rest) =>
    { s with
      table := (tx.run s.table).toOption.getD s.table
      pending := s.pending.set i rest }
  | _ => s

/-- Two sections are ingested, then a version with one section is written over them. -/
def mixed : Writers ℕ 1 :=
  committed 1 (begun "# c".toList (committed 0 (committed 0 (begun "# a\n# b".toList {}))))

def shrinkingSteps : List (Step (Writers ℕ 1) (Act ℕ)) :=
  let s₁ := begun "# a\n# b".toList {}
  let s₂ := committed 0 s₁
  let s₃ := committed 0 s₂
  let s₄ := begun "# c".toList s₃
  [⟨{}, .start (rollback "# a\n# b".toList), s₁⟩, ⟨s₁, .commit 0, s₂⟩, ⟨s₂, .commit 0, s₃⟩,
    ⟨s₃, .start (rollback "# c".toList), s₄⟩, ⟨s₄, .commit 1, mixed⟩]

theorem shrinkingSteps_run : Run Steps {} shrinkingSteps mixed := by
  have hfirst : Steps {} (.start (rollback "# a\n# b".toList)) (begun "# a\n# b".toList {}) :=
    .start _ _ rfl
  refine .snoc (.snoc (.snoc (.snoc (.snoc .nil hfirst) ?_) ?_) (.start _ _ rfl)) ?_
  · exact .commit 0 _ _ _ rfl rfl
  · exact .commit 0 _ _ _ rfl rfl
  · exact .commit 1 _ _ _ rfl rfl

/-- The prune of the second call follows. -/
def shrunk : Writers ℕ 1 := committed 1 mixed

theorem prunedSteps_run :
    Run Steps {} (shrinkingSteps ++ [⟨mixed, .commit 1, shrunk⟩]) shrunk :=
  shrinkingSteps_run.snoc (.commit 1 _ _ _ rfl rfl)

/-- One section is ingested, then a version with two sections. -/
def grown : Writers ℕ 1 :=
  committed 1 (begun "# a\n# b".toList (committed 0 (committed 0 (begun "# c".toList {}))))

def growingSteps : List (Step (Writers ℕ 1) (Act ℕ)) :=
  let s₁ := begun "# c".toList {}
  let s₂ := committed 0 s₁
  let s₃ := committed 0 s₂
  let s₄ := begun "# a\n# b".toList s₃
  [⟨{}, .start (rollback "# c".toList), s₁⟩, ⟨s₁, .commit 0, s₂⟩, ⟨s₂, .commit 0, s₃⟩,
    ⟨s₃, .start (rollback "# a\n# b".toList), s₄⟩, ⟨s₄, .commit 1, grown⟩]

theorem growingSteps_run : Run Steps {} growingSteps grown := by
  have hfirst : Steps {} (.start (rollback "# c".toList)) (begun "# c".toList {}) :=
    .start _ _ rfl
  refine .snoc (.snoc (.snoc (.snoc (.snoc .nil hfirst) ?_) ?_) (.start _ _ rfl)) ?_
  · exact .commit 0 _ _ _ rfl rfl
  · exact .commit 0 _ _ _ rfl rfl
  · exact .commit 1 _ _ _ rfl rfl

theorem commits_unique {s s' : Writers F dim} {i : ℕ} {tx tx' : Transaction F}
    {rest : List (Transaction F)} (hi : s.pending[i]? = some (tx :: rest))
    (h : Commits ⟨s, .commit i, s'⟩ tx') : tx' = tx := by
  obtain ⟨j, rest', hj, hpending⟩ := h
  cases hj
  have hsame := hi.symm.trans hpending
  exact (List.cons.inj (Option.some.inj hsame)).1.symm

theorem growingSteps_fit :
    ∀ x ∈ growingSteps, ∀ tx, Commits x tx → tx.Fits x.before.table := by
  intro x hx tx hcommits
  simp only [growingSteps, List.mem_cons, List.not_mem_nil, or_false] at hx
  rcases hx with rfl | rfl | rfl | rfl | rfl
  · obtain ⟨i, rest, hlabel, -⟩ := hcommits
    cases hlabel
  · obtain rfl := commits_unique rfl hcommits
    decide +kernel
  · obtain rfl := commits_unique rfl hcommits
    decide +kernel
  · obtain ⟨i, rest, hlabel, -⟩ := hcommits
    cases hlabel
  · obtain rfl := commits_unique rfl hcommits
    decide +kernel

/-- The numbered rows of the mixed state, the one version behind an upsert that fits, and the
rows of the second call behind its two transactions. -/
theorem committed_rows_rollback :
    (∃ rs, (mixed.table.rowsOf "RB-1".toList).Perm rs ∧
      ∀ i r, rs[i]? = some r → Sourced mixed.calls "RB-1".toList i r) ∧
    Whole grown "RB-1".toList ∧
    Shows shrunk.table "RB-1".toList (rollbackRows "# c".toList) := by
  refine ⟨(committed_rows shrinkingSteps_run _).1,
    (committed_rows growingSteps_run _).2.1 growingSteps_fit,
    (committed_rows prunedSteps_run _).2.2 (shrinkingSteps.take 4) _ [] _ _ rfl
      ⟨1, _, rfl, rfl⟩ ?_ ⟨1, _, rfl, rfl⟩ fun z hz => absurd hz List.not_mem_nil⟩
  decide +kernel

/-- Between the two transactions of a call the table mixes both versions. -/
theorem half_ingested_visible : ¬ ∀ (steps : List (Step (Writers ℕ 1) (Act ℕ))) s docId,
    Run Steps {} steps s → Whole s docId := by
  intro hall
  obtain ⟨rs, hrs, hshows⟩ := hall _ _ "RB-1".toList shrinkingSteps_run
  have hcontents : ["# c".toList, "# b".toList].Perm (rs.map ChunkRow.content) := by
    have hmap := hshows.map ChunkRow.content
    rw [List.map_map, List.map_map] at hmap
    exact hmap
  rcases hrs with rfl | ⟨call, hcall, doc, -, -, -, rows, hrows, hinside⟩
  · exact absurd hcontents.length_eq (by decide)
  have hsub : ∀ content ∈ ["# c".toList, "# b".toList], content ∈ rows.map ChunkRow.content :=
    fun content hc => (hinside.map ChunkRow.content).subset (hcontents.subset hc)
  have hcalls : call ∈ [rollback "# a\n# b".toList, rollback "# c".toList] := hcall
  rcases List.mem_pair.mp hcalls with rfl | rfl
  · obtain rfl : rollbackRows "# a\n# b".toList = rows := Except.ok.inj hrows
    exact absurd (hsub "# c".toList (by decide)) (by decide)
  · obtain rfl : rollbackRows "# c".toList = rows := Except.ok.inj hrows
    exact absurd (hsub "# b".toList (by decide)) (by decide)

end GroundedOps.Ingestion
