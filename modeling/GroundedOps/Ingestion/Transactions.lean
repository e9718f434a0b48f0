import GroundedOps.Ingestion.DocumentRows
import GroundedOps.Library.Program

/-!
# The transactions of the writer

When every row stands under the id of its document and index, the table is a column of
rows for each document. An upsert writes the first rows of one column and a prune cuts the
column; a call of `ingest_documents` is a list of such transactions.
-/

namespace GroundedOps.Ingestion

open Python Program

variable {F : Type} {dim : ℕ}

/-- Written over an old row, a row keeps the date of the old one. -/
def ChunkRow.kept (old : Option (ChunkRow F)) (r : ChunkRow F) : ChunkRow F :=
  { r with createdAt := (old.map ChunkRow.createdAt).getD r.createdAt }

/-- The row without its date. -/
def ChunkRow.undated (r : ChunkRow F) : ChunkRow F := { r with createdAt := 0 }

theorem ChunkRow.of_undated {r r' : ChunkRow F} (h : r.undated = r'.undated) :
    r.chunkId = r'.chunkId ∧ r.docId = r'.docId ∧ r.chunkIndex = r'.chunkIndex ∧
      r.embeddingModel = r'.embeddingModel := by
  cases r
  cases r'
  cases h
  exact ⟨rfl, rfl, rfl, rfl⟩

@[simp] theorem ChunkRow.undated_kept (old : Option (ChunkRow F)) (r : ChunkRow F) :
    (r.kept old).undated = r.undated := rfl

namespace ChunkTable

/-! ### Rows under their keys -/

variable {t t' : ChunkTable F dim}

theorem get?_upsert (t : ChunkTable F dim) (r : ChunkRow F) (h : r.embedding.length = dim)
    (k : Text) : (t.upsert r h).rows.get? k =
      if k = r.chunkId then some (r.kept (t.rows.get? r.chunkId)) else t.rows.get? k :=
  Dict.get?_set _ _ _ _

theorem get?_upsertAll_of_notMem {rows : List (ChunkRow F)} (h : ∀ r ∈ rows, Storable dim r)
    (t : ChunkTable F dim) {k : Text} (hk : k ∉ rows.map ChunkRow.chunkId) :
    (upsertAll rows h t).rows.get? k = t.rows.get? k := by
  induction rows generalizing t with
  | nil => rfl
  | cons r rows ih =>
    rw [List.map_cons, List.mem_cons, not_or] at hk
    rw [upsertAll, ih _ _ hk.2, get?_upsert, if_neg hk.1]

theorem get?_upsertAll_of_mem {rows : List (ChunkRow F)} (h : ∀ r ∈ rows, Storable dim r)
    (hnodup : (rows.map ChunkRow.chunkId).Nodup) (t : ChunkTable F dim) {r : ChunkRow F}
    (hr : r ∈ rows) :
    (upsertAll rows h t).rows.get? r.chunkId = some (r.kept (t.rows.get? r.chunkId)) := by
  induction rows generalizing t with
  | nil => cases hr
  | cons x rows ih =>
    rw [List.map_cons, List.nodup_cons] at hnodup
    rw [upsertAll]
    rcases List.mem_cons.mp hr with rfl | hr
    · rw [get?_upsertAll_of_notMem _ _ hnodup.1, get?_upsert, if_pos rfl]
    · have hne : r.chunkId ≠ x.chunkId := by
        intro heq
        exact hnodup.1 (heq ▸ List.mem_map_of_mem hr)
      rw [ih _ hnodup.2 _ hr, get?_upsert, if_neg hne]

theorem get?_delete (t : ChunkTable F dim) (p : ChunkRow F → Bool) (k : Text) :
    (t.delete p).rows.get? k = (t.rows.get? k).filter fun r => !p r := by
  ext r
  rw [Dict.get?_eq_some, Option.filter_eq_some_iff, Dict.get?_eq_some]
  exact Dict.mem_items_filter

/-- Every row stands under the id of its document and index. -/
def Addressed (t : ChunkTable F dim) : Prop :=
  ∀ k r, t.rows.get? k = some r → k = chunkId r.docId r.chunkIndex

/-- Row `i` of a document. -/
def cell (t : ChunkTable F dim) (docId : Text) (i : ℕ) : Option (ChunkRow F) :=
  t.rows.get? (chunkId docId i)

theorem addressed_empty : (empty : ChunkTable F dim).Addressed := by
  intro k r h
  cases h

theorem Addressed.cell_eq_some (h : t.Addressed) {docId : Text} {i : ℕ} {r : ChunkRow F}
    (hr : t.cell docId i = some r) : r.docId = docId ∧ r.chunkIndex = i := by
  have hid := h _ r hr
  obtain ⟨hdoc, hindex⟩ := chunkId_inj.mp hid
  exact ⟨hdoc.symm, hindex.symm⟩

theorem Addressed.get?_eq_some (h : t.Addressed) {k : Text} {r : ChunkRow F} :
    t.rows.get? k = some r ↔ k = chunkId r.docId r.chunkIndex ∧
      t.cell r.docId r.chunkIndex = some r := by
  constructor
  · intro hr
    have hk := h k r hr
    exact ⟨hk, by rw [cell, ← hk, hr]⟩
  · rintro ⟨rfl, hr⟩
    exact hr

/-! ### Rows of a document -/

/-- The stored rows of a document. -/
def rowsOf (t : ChunkTable F dim) (docId : Text) : List (ChunkRow F) :=
  t.rows.values.filter fun r => r.docId = docId

theorem mem_values {r : ChunkRow F} : r ∈ t.rows.values ↔ t.rows.get? r.chunkId = some r := by
  rw [Dict.get?_eq_some, Dict.values, List.mem_map]
  constructor
  · rintro ⟨⟨k, v⟩, hp, rfl⟩
    have hk : v.chunkId = k := t.keyed _ hp
    rw [hk]
    exact hp
  · intro hp
    exact ⟨_, hp, rfl⟩

theorem nodup_values (t : ChunkTable F dim) : t.rows.values.Nodup := by
  have hkeys : t.rows.values.map ChunkRow.chunkId = t.rows.keys := by
    rw [Dict.values, Dict.keys, List.map_map]
    exact List.map_congr_left t.keyed
  exact List.Nodup.of_map ChunkRow.chunkId (hkeys ▸ t.rows.nodup_keys)

theorem Addressed.mem_rowsOf (h : t.Addressed) {docId : Text} {r : ChunkRow F} :
    r ∈ t.rowsOf docId ↔ ∃ i, t.cell docId i = some r := by
  rw [rowsOf, List.mem_filter, mem_values, decide_eq_true_eq]
  constructor
  · rintro ⟨hr, rfl⟩
    exact ⟨r.chunkIndex, (h.get?_eq_some.mp hr).2⟩
  · rintro ⟨i, hr⟩
    obtain ⟨rfl, rfl⟩ := h.cell_eq_some hr
    have hp : (chunkId r.docId r.chunkIndex, r) ∈ t.rows.items := Dict.get?_eq_some.mp hr
    have hk : r.chunkId = chunkId r.docId r.chunkIndex := t.keyed _ hp
    exact ⟨by rw [hk]; exact hr, rfl⟩

theorem Addressed.mem_values_iff (h : t.Addressed) {r : ChunkRow F} :
    r ∈ t.rows.values ↔ ∃ d i, t.cell d i = some r := by
  constructor
  · intro hr
    exact ⟨r.docId, h.mem_rowsOf.mp (List.mem_filter.mpr ⟨hr, by simp⟩)⟩
  · rintro ⟨d, i, hr⟩
    exact (List.mem_filter.mp (h.mem_rowsOf.mpr ⟨i, hr⟩)).1

/-- The rows of a document are the list that its cells spell. -/
theorem Addressed.rowsOf_perm (h : t.Addressed) {docId : Text} {rs : List (ChunkRow F)}
    (hcells : ∀ i, t.cell docId i = rs[i]?) : (t.rowsOf docId).Perm rs := by
  have hindex : rs.map ChunkRow.chunkIndex = List.range rs.length := by
    apply List.ext_getElem?
    intro i
    rw [List.getElem?_map]
    cases hr : rs[i]? with
    | none => simpa using hr
    | some r =>
      obtain ⟨hlt, -⟩ := List.getElem?_eq_some_iff.mp hr
      rw [Option.map_some, (h.cell_eq_some ((hcells i).trans hr)).2, List.getElem?_range hlt]
  have hnodup : rs.Nodup := List.Nodup.of_map ChunkRow.chunkIndex (hindex ▸ List.nodup_range)
  apply (List.perm_ext_iff_of_nodup (t.nodup_values.filter _) hnodup).mpr
  intro r
  rw [← rowsOf, h.mem_rowsOf, List.mem_iff_getElem?]
  simp only [hcells]

/-- A column without gaps is a list of rows. -/
theorem exists_column (t : ChunkTable F dim) {docId : Text} {n : ℕ}
    (h : ∀ i, (t.cell docId i).isSome ↔ i < n) :
    ∃ rs : List (ChunkRow F), rs.length = n ∧ ∀ i, t.cell docId i = rs[i]? := by
  refine ⟨List.ofFn fun i : Fin n => (t.cell docId i).get ((h i).mpr i.isLt), by simp, ?_⟩
  intro i
  rw [List.getElem?_ofFn]
  split_ifs with hi
  · exact (Option.some_get _).symm
  · rw [← h, Option.not_isSome_iff_eq_none] at hi
    exact hi

end ChunkTable

/-! ### One transaction -/

open ChunkTable

/-- A transaction of the writer. -/
inductive Transaction (F : Type)
  | upsert (rows : List (ChunkRow F))
  | prune (docId : Text) (keep : ℕ)

def Transaction.run : Transaction F → ChunkTable F dim → Except Exn (ChunkTable F dim)
  | .upsert rows, t => upsertChunks rows t
  | .prune docId keep, t => .ok (deleteOrphans docId keep t)

/-- The rows that one insert statement takes. -/
def Accepted (dim : ℕ) (rows : List (ChunkRow F)) : Prop :=
  (∀ r ∈ rows, Storable dim r) ∧ (rows.map ChunkRow.chunkId).Nodup

instance (rows : List (ChunkRow F)) : Decidable (Accepted dim rows) :=
  inferInstanceAs (Decidable (_ ∧ _))

theorem upsertChunks_eq_ok {rows : List (ChunkRow F)} {t t' : ChunkTable F dim} :
    upsertChunks rows t = .ok t' ↔ ∃ h : Accepted dim rows, upsertAll rows h.1 t = t' := by
  rw [upsertChunks]
  split_ifs with hempty hstorable hnodup
  · obtain rfl := List.isEmpty_iff.mp hempty
    exact ⟨fun h => ⟨⟨by simp, by simp⟩, Except.ok.inj h⟩, fun ⟨_, h⟩ => congrArg _ h⟩
  · exact ⟨fun h => ⟨⟨hstorable, hnodup⟩, Except.ok.inj h⟩, fun ⟨_, h⟩ => congrArg _ h⟩
  · exact ⟨nofun, fun ⟨h, _⟩ => absurd h.2 hnodup⟩
  · exact ⟨nofun, fun ⟨h, _⟩ => absurd h.1 hstorable⟩

/-- What the upsert of a version does to the table. -/
structure Upserted (docId : Text) (rs : List (ChunkRow F)) (t t' : ChunkTable F dim) : Prop where
  addressed : t'.Addressed
  written : ∀ i r, rs[i]? = some r → t'.cell docId i = some (r.kept (t.cell docId i))
  behind : ∀ i, rs[i]? = none → t'.cell docId i = t.cell docId i
  others : ∀ d i, d ≠ docId → t'.cell d i = t.cell d i

theorem upserted {docId : Text} {rs : List (ChunkRow F)} {t t' : ChunkTable F dim}
    (hversion : Version docId rs) (ht : t.Addressed) (h : upsertChunks rs t = .ok t') :
    Upserted docId rs t t' := by
  obtain ⟨⟨hstorable, hnodup⟩, rfl⟩ := upsertChunks_eq_ok.mp h
  have hids := hversion.chunkIds
  have hkey : ∀ d i, chunkId d i ∈ rs.map ChunkRow.chunkId ↔ d = docId ∧ i < rs.length := by
    intro d i
    simp only [hids, List.mem_map, List.mem_range, chunkId_inj]
    constructor
    · rintro ⟨j, hj, rfl, rfl⟩
      exact ⟨rfl, hj⟩
    · rintro ⟨rfl, hi⟩
      exact ⟨i, hi, rfl, rfl⟩
  constructor
  · intro k r hr
    by_cases hk : k ∈ rs.map ChunkRow.chunkId
    · obtain ⟨x, hx, rfl⟩ := List.mem_map.mp hk
      rw [get?_upsertAll_of_mem _ hnodup _ hx] at hr
      obtain rfl := Option.some.inj hr
      exact hversion.chunkId_eq x hx
    · rw [get?_upsertAll_of_notMem _ _ hk] at hr
      exact ht k r hr
  · intro i r hr
    rw [cell, cell, ← (hversion.getElem? hr).2.2]
    exact get?_upsertAll_of_mem _ hnodup _ (List.mem_of_getElem? hr)
  · intro i hi
    apply get?_upsertAll_of_notMem
    rw [hkey]
    have hle := List.getElem?_eq_none_iff.mp hi
    omega
  · intro d i hd
    apply get?_upsertAll_of_notMem
    rw [hkey]
    exact fun h => hd h.1

/-- What a prune does to the table. -/
structure Pruned (docId : Text) (keep : ℕ) (t t' : ChunkTable F dim) : Prop where
  addressed : t'.Addressed
  kept : ∀ i, i < keep → t'.cell docId i = t.cell docId i
  cut : ∀ i, keep ≤ i → t'.cell docId i = none
  others : ∀ d i, d ≠ docId → t'.cell d i = t.cell d i

theorem pruned {t : ChunkTable F dim} (ht : t.Addressed) (docId : Text) (keep : ℕ) :
    Pruned docId keep t (deleteOrphans docId keep t) := by
  have hcell : ∀ d i, (deleteOrphans docId keep t).cell d i =
      if d = docId ∧ keep ≤ i then none else t.cell d i := by
    intro d i
    rw [cell, deleteOrphans, get?_delete, ← cell]
    cases hr : t.cell d i with
    | none => simp
    | some r =>
      obtain ⟨rfl, rfl⟩ := ht.cell_eq_some hr
      by_cases hout : r.docId = docId ∧ keep ≤ r.chunkIndex
      · rw [if_pos hout]
        simp [hout]
      · rw [if_neg hout]
        simpa [Option.filter] using hout
  constructor
  · intro k r hr
    rw [deleteOrphans, get?_delete, Option.filter_eq_some_iff] at hr
    exact ht k r hr.1
  · intro i hi
    rw [hcell, if_neg (by omega)]
  · intro i hi
    rw [hcell, if_pos ⟨rfl, hi⟩]
  · intro d i hd
    rw [hcell, if_neg fun h => hd h.1]

/-- What both transactions of a document do to the table. -/
structure Replaced (docId : Text) (rs : List (ChunkRow F)) (t t' : ChunkTable F dim) : Prop where
  addressed : t'.Addressed
  written : ∀ i, t'.cell docId i = rs[i]?.map fun r => r.kept (t.cell docId i)
  others : ∀ d i, d ≠ docId → t'.cell d i = t.cell d i

theorem Upserted.pruned {docId : Text} {rs : List (ChunkRow F)} {t t' t'' : ChunkTable F dim}
    (h : Upserted docId rs t t') (h' : Pruned docId rs.length t' t'') : Replaced docId rs t t'' where
  addressed := h'.addressed
  written := by
    intro i
    cases hr : rs[i]? with
    | none => exact h'.cut i (List.getElem?_eq_none_iff.mp hr)
    | some r =>
      obtain ⟨hlt, -⟩ := List.getElem?_eq_some_iff.mp hr
      rw [h'.kept i hlt, h.written i r hr, Option.map_some]
  others := by
    intro d i hd
    rw [h'.others d i hd, h.others d i hd]

/-! ### The transactions of a call -/

/-- The rows of a call for one document. -/
def own (rows : List (ChunkRow F)) (docId : Text) : List (ChunkRow F) :=
  rows.filter fun r => r.docId = docId

section Own

variable {enc : Tokenizer} {embeds : Text → List F → Prop} {model : Text} {createdAt : ℤ}
  {docs : List SourceDoc} {blocks : List (List (ChunkRow F))}

theorem own_append (rs rows : List (ChunkRow F)) (docId : Text) :
    own (rs ++ rows) docId = own rs docId ++ own rows docId := List.filter_append ..

theorem DocRows.own_eq {doc : SourceDoc} {rs : List (ChunkRow F)}
    (h : DocRows enc embeds model createdAt doc rs) (docId : Text) :
    own rs docId = if doc.docId = docId then rs else [] := by
  have hdoc := h.version.docId_eq
  rw [own]
  split_ifs with hid
  · rw [List.filter_eq_self]
    intro r hr
    rw [hdoc r hr, hid, decide_eq_true_eq]
  · rw [List.filter_eq_nil_iff]
    intro r hr
    rw [hdoc r hr, decide_eq_true_eq]
    exact hid

/-- If all versions of a document are blank, the batch has no rows for it. -/
theorem Blocks.own_eq_nil (h : Blocks enc embeds model createdAt docs blocks) {docId : Text}
    (hblank : ∀ doc ∈ docs, doc.docId = docId → Blank enc doc) : own blocks.flatten docId = [] := by
  induction h with
  | nil => rfl
  | @cons doc rs docs blocks hdoc _ ih =>
    obtain ⟨hhead, htail⟩ := List.forall_mem_cons.mp hblank
    rw [List.flatten_cons, own_append, hdoc.own_eq, ih htail, List.append_nil]
    split_ifs with hid
    · exact hdoc.eq_nil_iff.mpr (hhead hid)
    · rfl

/-- If the rows of a document are accepted, they are those of one of its versions: two that
are not blank would both have a row with index zero. -/
theorem Blocks.own_eq_block (h : Blocks enc embeds model createdAt docs blocks) {docId : Text}
    (hid : docId ∈ docs.map SourceDoc.docId)
    (hnodup : ((own blocks.flatten docId).map ChunkRow.chunkId).Nodup) :
    ∃ doc ∈ docs, doc.docId = docId ∧ own blocks.flatten docId <:+: blocks.flatten ∧
      DocRows enc embeds model createdAt doc (own blocks.flatten docId) := by
  induction h with
  | nil => cases hid
  | @cons doc rs docs blocks hdoc hblocks ih =>
    rw [List.flatten_cons, own_append, hdoc.own_eq] at hnodup ⊢
    rw [List.map_cons, List.mem_cons] at hid
    by_cases hhead : doc.docId = docId
    · rw [if_pos hhead] at hnodup ⊢
      by_cases hlater : docId ∈ docs.map SourceDoc.docId
      · rw [List.map_append, List.nodup_append] at hnodup
        obtain ⟨-, hlast, hapart⟩ := hnodup
        obtain ⟨doc', hmem, hid', hinside, hrows⟩ := ih hlater hlast
        cases rs with
        | nil =>
          exact ⟨doc', List.mem_cons_of_mem _ hmem, hid', hinside, hrows⟩
        | cons r rs =>
          cases hown : own blocks.flatten docId with
          | nil =>
            rw [List.append_nil]
            exact ⟨doc, List.mem_cons_self, hhead, (List.prefix_append _ _).isInfix, hdoc⟩
          | cons r' rs' =>
            rw [hown] at hrows hapart
            have hr := (hdoc.version.getElem? (i := 0) rfl).2.2
            have hr' := (hrows.version.getElem? (i := 0) rfl).2.2
            refine absurd ?_ (hapart r.chunkId (by simp) r'.chunkId (by simp))
            rw [hr, hr', hhead, hid']
      · have hnone : own blocks.flatten docId = [] := by
          apply Blocks.own_eq_nil hblocks
          rintro doc' hmem rfl
          exact absurd (List.mem_map_of_mem hmem) hlater
        rw [hnone, List.append_nil]
        exact ⟨doc, List.mem_cons_self, hhead, (List.prefix_append _ _).isInfix, hdoc⟩
    · rw [if_neg hhead, List.nil_append] at hnodup ⊢
      obtain ⟨doc', hmem, hid', hinside, hrows⟩ := ih (hid.resolve_left fun h => hhead h.symm) hnodup
      exact ⟨doc', List.mem_cons_of_mem _ hmem, hid',
        hinside.trans (List.suffix_append _ _).isInfix, hrows⟩

/-- No id is repeated, unless all versions of the document are blank. -/
def Unrepeated (enc : Tokenizer) (docs : List SourceDoc) : Prop :=
  docs.Pairwise fun doc doc' => doc.docId = doc'.docId → Blank enc doc ∧ Blank enc doc'

theorem unrepeated_of_nodup (enc : Tokenizer) (h : (docs.map SourceDoc.docId).Nodup) :
    Unrepeated enc docs :=
  (List.pairwise_map.mp h).imp fun hne heq => absurd heq hne

/-- Without repeated ids the rows of a document are its own. -/
theorem Blocks.own_of_unrepeated (h : Blocks enc embeds model createdAt docs blocks)
    (hids : Unrepeated enc docs) :
    List.Forall₂ (fun doc rs => own blocks.flatten doc.docId = rs) docs blocks := by
  induction h with
  | nil => exact .nil
  | @cons doc rs docs blocks hdoc hblocks ih =>
    obtain ⟨hhead, htail⟩ := List.pairwise_cons.mp hids
    refine .cons ?_ ?_
    · have hnone : own blocks.flatten doc.docId = [] :=
        Blocks.own_eq_nil hblocks fun doc' hmem heq => (hhead doc' hmem heq.symm).2
      rw [List.flatten_cons, own_append, hdoc.own_eq, if_pos rfl, hnone, List.append_nil]
    · have hrest := ih htail
      rw [List.forall₂_iff_zip] at hrest ⊢
      refine ⟨hrest.1, ?_⟩
      intro doc' rs' hmem
      have hnil : own rs doc'.docId = [] := by
        rw [hdoc.own_eq]
        split_ifs with heq
        · exact hdoc.eq_nil_iff.mpr (hhead doc' (List.of_mem_zip hmem).1 heq).1
        · rfl
      rw [List.flatten_cons, own_append, hnil, List.nil_append]
      exact hrest.2 hmem

end Own

/-- What a call with these rows does, in order. -/
def transactions (rows : List (ChunkRow F)) (docs : List SourceDoc) : List (Transaction F) :=
  docs.flatMap fun doc =>
    [.upsert (own rows doc.docId), .prune doc.docId (own rows doc.docId).length]

/-- Runs transactions until one fails. -/
def runAll : List (Transaction F) → EStateM Exn (ChunkTable F dim) Unit
  | [] => pure ()
  | tx :: txs => do
    match tx.run (← get) with
    | .error e => throw e
    | .ok t => set t
    runAll txs

theorem runAll_cons (tx : Transaction F) (txs : List (Transaction F)) (t : ChunkTable F dim) :
    runAll (tx :: txs) t =
      match tx.run t with
      | .error e => .error e t
      | .ok t' => runAll txs t' := by
  rw [runAll, run_get_bind]
  cases tx.run t <;> rfl

theorem ingestRows_cons (rows : List (ChunkRow F)) (doc : SourceDoc) (docs : List SourceDoc)
    (t : ChunkTable F dim) :
    ingestRows rows (doc :: docs) t =
      match upsertChunks (own rows doc.docId) t with
      | .error e => .error e t
      | .ok t' =>
        (do let rest ← ingestRows rows docs
            return (own rows doc.docId).length + rest : EStateM Exn (ChunkTable F dim) ℕ)
          (deleteOrphans doc.docId (own rows doc.docId).length t') := by
  rw [ingestRows, run_get_bind, own]
  cases upsertChunks (rows.filter fun r => r.docId = doc.docId) t <;> rfl

/-- A call executes its transactions. -/
theorem ingestRows_eq (rows : List (ChunkRow F)) (docs : List SourceDoc) (t : ChunkTable F dim) :
    ingestRows rows docs t =
      (do runAll (transactions rows docs)
          return (docs.map fun doc => (own rows doc.docId).length).sum :
        EStateM Exn (ChunkTable F dim) ℕ) t := by
  induction docs generalizing t with
  | nil => rfl
  | cons doc docs ih =>
    have htxs : transactions rows (doc :: docs) = .upsert (own rows doc.docId) ::
        .prune doc.docId (own rows doc.docId).length :: transactions rows docs := rfl
    rw [ingestRows_cons, htxs]
    simp only [bind, EStateM.bind, runAll_cons, Transaction.run]
    cases upsertChunks (own rows doc.docId) t with
    | error e => rfl
    | ok t' =>
      simp only [ih, bind, EStateM.bind]
      cases runAll (transactions rows docs) (deleteOrphans doc.docId (own rows doc.docId).length t')
      · rfl
      · rfl

/-! ### What a call does to the table -/

/-- These documents have the rows of the call, with the dates of the rows written over. -/
structure Ingested (rows : List (ChunkRow F)) (ids : List Text) (t t' : ChunkTable F dim) :
    Prop where
  addressed : t'.Addressed
  written : ∀ d ∈ ids, ∀ i, t'.cell d i = (own rows d)[i]?.map fun r => r.kept (t.cell d i)
  others : ∀ d, d ∉ ids → ∀ i, t'.cell d i = t.cell d i

theorem Replaced.ingested {rows : List (ChunkRow F)} {docId : Text} {ids : List Text}
    {t t' t'' : ChunkTable F dim} (h : Replaced docId (own rows docId) t t')
    (h' : Ingested rows ids t' t'') : Ingested rows (docId :: ids) t t'' where
  addressed := h'.addressed
  written := by
    intro d hd i
    by_cases hlater : d ∈ ids
    · rw [h'.written d hlater i]
      by_cases hsame : d = docId
      · subst hsame
        rw [h.written i]
        cases (own rows d)[i]? <;> rfl
      · rw [h.others d i hsame]
    · obtain rfl := (List.mem_cons.mp hd).resolve_right hlater
      rw [h'.others d hlater i, h.written i]
  others := by
    intro d hd i
    rw [List.mem_cons, not_or] at hd
    rw [h'.others d hd.2 i, h.others d i hd.1]

/-- The documents that a call with these rows gets through. -/
def replaced (dim : ℕ) (rows : List (ChunkRow F)) (docs : List SourceDoc) : List Text :=
  (docs.takeWhile fun doc => Accepted dim (own rows doc.docId)).map SourceDoc.docId

section Ingest

variable {rows : List (ChunkRow F)} {docs : List SourceDoc}

/-- What the call has for a document is a version of it, if it is accepted. -/
def Versions (dim : ℕ) (rows : List (ChunkRow F)) (docs : List SourceDoc) : Prop :=
  ∀ doc ∈ docs, Accepted dim (own rows doc.docId) → Version doc.docId (own rows doc.docId)

theorem replaced_of_accepted {doc : SourceDoc} (h : Accepted dim (own rows doc.docId)) :
    replaced dim rows (doc :: docs) = doc.docId :: replaced dim rows docs := by
  rw [replaced, List.takeWhile_cons_of_pos (by simpa using h), List.map_cons, replaced]

theorem replaced_of_not {doc : SourceDoc} (h : ¬ Accepted dim (own rows doc.docId)) :
    replaced dim rows (doc :: docs) = [] := by
  rw [replaced, List.takeWhile_cons_of_neg (by simpa using h), List.map_nil]

theorem upsertChunks_of_accepted {rs : List (ChunkRow F)} (h : Accepted dim rs)
    (t : ChunkTable F dim) : upsertChunks rs t = .ok (upsertAll rs h.1 t) :=
  upsertChunks_eq_ok.mpr ⟨h, rfl⟩

theorem upsertChunks_of_not {rs : List (ChunkRow F)} (h : ¬ Accepted dim rs)
    (t : ChunkTable F dim) : ∃ e, upsertChunks rs t = .error e := by
  cases hrun : upsertChunks rs t with
  | ok t' => exact absurd (upsertChunks_eq_ok.mp hrun).1 h
  | error e => exact ⟨e, rfl⟩

theorem ingestRows_ingested (hversions : Versions dim rows docs) {t : ChunkTable F dim}
    (ht : t.Addressed) :
    Ingested rows (replaced dim rows docs) t (final (ingestRows rows docs t)) := by
  induction docs generalizing t with
  | nil => exact ⟨ht, by simp [replaced], fun d _ i => rfl⟩
  | cons doc docs ih =>
    rw [ingestRows_cons]
    by_cases hok : Accepted dim (own rows doc.docId)
    · have hrun := upsertChunks_of_accepted hok t
      have hup := upserted (hversions doc List.mem_cons_self hok) ht hrun
      have hcut := hup.pruned (pruned hup.addressed doc.docId _)
      rw [hrun, replaced_of_accepted hok]
      dsimp only
      rw [final_bind_pure]
      exact hcut.ingested (ih (fun d hd => hversions d (List.mem_cons_of_mem _ hd)) hcut.addressed)
    · obtain ⟨e, he⟩ := upsertChunks_of_not hok t
      rw [he, replaced_of_not hok]
      exact ⟨ht, by simp, fun d _ i => rfl⟩

/-- A call ends without an exception if and only if all its rows are accepted. -/
theorem ingestRows_ok_iff {t : ChunkTable F dim} {n : ℕ} :
    (∃ t', ingestRows rows docs t = .ok n t') ↔
      (∀ doc ∈ docs, Accepted dim (own rows doc.docId)) ∧
        (docs.map fun doc => (own rows doc.docId).length).sum = n := by
  induction docs generalizing t n with
  | nil =>
    rw [ingestRows, List.map_nil, List.sum_nil]
    constructor
    · rintro ⟨t', h⟩
      cases h
      exact ⟨by simp, rfl⟩
    · rintro ⟨-, rfl⟩
      exact ⟨t, rfl⟩
  | cons doc docs ih =>
    rw [ingestRows_cons, List.forall_mem_cons, List.map_cons, List.sum_cons]
    by_cases hok : Accepted dim (own rows doc.docId)
    · rw [upsertChunks_of_accepted hok]
      dsimp only
      generalize deleteOrphans doc.docId _ _ = u
      simp only [bind, EStateM.bind]
      constructor
      · rintro ⟨t', h⟩
        cases hrest : ingestRows rows docs u with
        | ok m v =>
          rw [hrest] at h
          cases h
          obtain ⟨hall, hsum⟩ := ih.mp ⟨_, hrest⟩
          exact ⟨⟨hok, hall⟩, by rw [hsum]⟩
        | error e v =>
          rw [hrest] at h
          cases h
      · rintro ⟨⟨-, hall⟩, rfl⟩
        obtain ⟨v, hrest⟩ := (ih (t := u)).mpr ⟨hall, rfl⟩
        exact ⟨v, by rw [hrest]; rfl⟩
    · obtain ⟨e, he⟩ := upsertChunks_of_not hok t
      rw [he]
      exact ⟨nofun, fun h => absurd h.1.1 hok⟩

theorem replaced_of_all (h : ∀ doc ∈ docs, Accepted dim (own rows doc.docId)) :
    replaced dim rows docs = docs.map SourceDoc.docId := by
  rw [replaced, List.takeWhile_eq_self_iff.mpr (by simpa using h)]

variable {enc : Tokenizer} {provider : EmbeddingProvider F} {batchSize : ℕ} {createdAt : ℤ}
  {t t' : ChunkTable F dim}

theorem Blocks.versions {embeds : Text → List F → Prop} {model : Text}
    {blocks : List (List (ChunkRow F))} (h : Blocks enc embeds model createdAt docs blocks) :
    Versions dim blocks.flatten docs := by
  intro doc hdoc hok
  obtain ⟨doc', -, hid, -, hrows⟩ := Blocks.own_eq_block h (List.mem_map_of_mem hdoc) hok.2
  exact hid ▸ hrows.version

theorem ingestDocuments_eq (t : ChunkTable F dim) :
    ingestDocuments enc provider batchSize createdAt docs t =
      match chunkRows enc provider batchSize createdAt docs with
      | .error e => .error e t
      | .ok rows =>
        (do let total ← ingestRows rows docs
            return ⟨docs.length, total, provider.modelName⟩ :
          EStateM Exn (ChunkTable F dim) IngestStats) t := by
  rw [ingestDocuments]
  cases chunkRows enc provider batchSize createdAt docs <;> rfl

theorem ingestDocuments_ok_iff {stats : IngestStats} :
    ingestDocuments enc provider batchSize createdAt docs t = .ok stats t' ↔
      ∃ rows, chunkRows enc provider batchSize createdAt docs = .ok rows ∧
        (∀ doc ∈ docs, Accepted dim (own rows doc.docId)) ∧
        stats = ⟨docs.length, (docs.map fun doc => (own rows doc.docId).length).sum,
          provider.modelName⟩ ∧ t' = final (ingestRows rows docs t) := by
  rw [ingestDocuments_eq]
  cases chunkRows enc provider batchSize createdAt docs with
  | error e => simp
  | ok rows =>
    simp only [bind, EStateM.bind, Except.ok.injEq, exists_eq_left']
    cases hrun : ingestRows rows docs t with
    | ok n v =>
      obtain ⟨hall, rfl⟩ := ingestRows_ok_iff.mp ⟨v, hrun⟩
      constructor
      · intro h
        cases h
        exact ⟨hall, rfl, rfl⟩
      · rintro ⟨-, rfl, rfl⟩
        rfl
    | error e v =>
      constructor
      · intro h
        cases h
      · rintro ⟨hall, -, -⟩
        obtain ⟨v, hv⟩ := ingestRows_ok_iff.mpr ⟨hall, rfl⟩
        rw [hv] at hrun
        cases hrun

/-- Whether it returns or raises, a call replaces the documents that it gets through. -/
theorem ingestDocuments_ingested (ht : t.Addressed)
    (hrows : chunkRows enc provider batchSize createdAt docs = .ok rows) :
    Ingested rows (replaced dim rows docs) t
      (final (ingestDocuments enc provider batchSize createdAt docs t)) := by
  obtain ⟨blocks, hblocks, rfl⟩ := chunkRows_blocks hrows
  rw [ingestDocuments_eq, hrows]
  dsimp only
  rw [final_bind_pure]
  exact ingestRows_ingested (Blocks.versions hblocks) ht

end Ingest

end GroundedOps.Ingestion
