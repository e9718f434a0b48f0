import GroundedOps.Library.Program

/-!
# Tables with constraints

Rows are checked on their own, against the keys of their table and against the tables they
refer to. A batch of inserts succeeds if the longer table obeys its constraints. A
transaction that fails leaves the tables as they were; numbers it took from a sequence are lost
unless it restarted the sequence.
-/

namespace GroundedOps.Relational

open Program

/-- A value for each column, none where it is null. -/
abbrev Row (Name V : Type) := Name → Option V

/-- A column whose values occur in a column of another table. -/
structure Reference (Name T : Type) where
  column : Name
  table : T
  key : Name

structure Relation (Name T V : Type) where
  /-- What a row must satisfy on its own. -/
  fits : Row Name V → Bool
  keys : List (List Name)
  references : List (Reference Name T)
  /-- How a row gets its number, if the table has a sequence. -/
  serial : Option (ℕ → Row Name V → Row Name V) := none

inductive Violation
  | check
  | unique
  | reference
  deriving DecidableEq, Repr

structure Database (Name T V : Type) where
  rows : T → List (Row Name V)
  next : T → ℕ

/-- A database within a transaction; `saved` holds the sequences as they were before they were
restarted. -/
structure Session (Name T V : Type) extends Database Name T V where
  saved : T → Option ℕ := fun _ => none

abbrev SessionM (Name T V : Type) := EStateM Violation (Session Name T V)

section Operations

variable {Name T V : Type} [DecidableEq T] [DecidableEq V]

/-- Rows that agree in a key; a null agrees with nothing. -/
def clashes (key : List Name) (r r' : Row Name V) : Bool :=
  key.all fun c => (r c).isSome && r c == r' c

def unique (keys : List (List Name)) (old : List (Row Name V)) (row : Row Name V) : Bool :=
  keys.all fun key => old.all fun r => !clashes key r row

def referred (rows : T → List (Row Name V)) (references : List (Reference Name T))
    (row : Row Name V) : Bool :=
  references.all fun ref =>
    (row ref.column).isNone || (rows ref.table).any fun r => r ref.key == row ref.column

def Relation.filled (rel : Relation Name T V) (n : ℕ) (row : Row Name V) : Row Name V :=
  match rel.serial with
  | none => row
  | some fill => fill n row

def Relation.after (rel : Relation Name T V) (n : ℕ) : ℕ := if rel.serial.isSome then n + 1 else n

/-- The rows of a batch with their numbers. -/
def Relation.numbered (rel : Relation Name T V) : ℕ → List (Row Name V) → List (Row Name V)
  | _, [] => []
  | n, row :: rows => rel.filled n row :: rel.numbered (rel.after n) rows

variable (schema : T → Relation Name T V)

def insert (t : T) (row : Row Name V) : SessionM Name T V Unit := do
  let s ← get
  let row := (schema t).filled (s.next t) row
  let s := { s with next := Function.update s.next t ((schema t).after (s.next t)) }
  set s
  if !(schema t).fits row then throw .check
  else if !unique (schema t).keys (s.rows t) row then throw .unique
  else if !referred s.rows (schema t).references row then throw .reference
  else set { s with rows := Function.update s.rows t (s.rows t ++ [row]) }

/-- Inserts a batch of at least one row. -/
def insertAll (t : T) (rows : List (Row Name V)) : SessionM Name T V Unit :=
  forM rows (insert schema t)

/-- `TRUNCATE … RESTART IDENTITY`, for tables that no other table refers to. -/
def truncate (ts : List T) : SessionM Name T V Unit :=
  modify fun s =>
    { rows := fun t => if t ∈ ts then [] else s.rows t
      next := fun t => if t ∈ ts then 1 else s.next t
      saved := fun t => if t ∈ ts then some ((s.saved t).getD (s.next t)) else s.saved t }

def count (t : T) : SessionM Name T V ℕ := do
  let s ← get
  return (s.rows t).length

/-- Commit on success, roll back on an exception. -/
def transaction {α : Type} (p : SessionM Name T V α) : EStateM Violation (Database Name T V) α :=
  fun db =>
    match p { db with } with
    | .ok a s => .ok a s.toDatabase
    | .error e s => .error e
      { rows := db.rows
        next := fun t => (s.saved t).getD (s.next t) }

section Transactions

variable {α : Type} {p : SessionM Name T V α} {db : Database Name T V} {s : Session Name T V}

omit [DecidableEq T] [DecidableEq V] in
theorem transaction_ok {a : α} (h : p { db with } = .ok a s) :
    transaction p db = .ok a s.toDatabase := by
  rw [transaction, h]

omit [DecidableEq T] [DecidableEq V] in
theorem transaction_error {v : Violation} (h : p { db with } = .error v s) :
    transaction p db = .error v
      { rows := db.rows
        next := fun t => (s.saved t).getD (s.next t) } := by
  rw [transaction, h]

end Transactions

end Operations

/-! ### Valid databases -/

section Valid

variable {Name T V : Type} [DecidableEq T] [DecidableEq V]

theorem clashes_iff {key : List Name} {r r' : Row Name V} :
    clashes key r r' = true ↔ ∀ c ∈ key, (r c).isSome ∧ r c = r' c := by
  simp [clashes]

theorem unique_iff {keys : List (List Name)} {old : List (Row Name V)} {row : Row Name V} :
    unique keys old row = true ↔ ∀ key ∈ keys, ∀ r ∈ old, clashes key r row = false := by
  simp [unique]

/-- What a row refers to exists. -/
def Refers (rows : T → List (Row Name V)) (references : List (Reference Name T))
    (row : Row Name V) : Prop :=
  ∀ ref ∈ references, ∀ v, row ref.column = some v → ∃ r ∈ rows ref.table, r ref.key = some v

omit [DecidableEq T] in
theorem referred_iff {rows : T → List (Row Name V)} {references : List (Reference Name T)}
    {row : Row Name V} : referred rows references row = true ↔ Refers rows references row := by
  simp only [referred, Refers, List.all_eq_true, Bool.or_eq_true, Option.isNone_iff_eq_none,
    List.any_eq_true, beq_iff_eq]
  refine forall₂_congr fun ref _ => ?_
  cases hv : row ref.column with
  | none => simp
  | some v => simp

omit [DecidableEq T] [DecidableEq V] in
theorem Refers.mono {rows rows' : T → List (Row Name V)} {references : List (Reference Name T)}
    {row : Row Name V} (h : Refers rows references row)
    (hsub : ∀ ref ∈ references, rows ref.table ⊆ rows' ref.table) :
    Refers rows' references row := by
  intro ref href v hv
  obtain ⟨r, hr, hkey⟩ := h ref href v hv
  exact ⟨r, hsub ref href hr, hkey⟩

variable (schema : T → Relation Name T V)

/-- The rows obey every constraint. -/
structure Valid (rows : T → List (Row Name V)) : Prop where
  fits : ∀ t, ∀ row ∈ rows t, (schema t).fits row = true
  unique : ∀ t, ∀ key ∈ (schema t).keys,
    (rows t).Pairwise fun r r' => clashes key r r' = false
  refers : ∀ t, ∀ row ∈ rows t, Refers rows (schema t).references row

/-- No table outside refers to one of these. -/
def Closed (ts : List T) : Prop :=
  ∀ t, t ∉ ts → ∀ ref ∈ (schema t).references, ref.table ∉ ts

/-- The session after a batch has been accepted. -/
def Session.inserted (s : Session Name T V) (t : T) (rows : List (Row Name V)) :
    Session Name T V :=
  { s with
    rows := Function.update s.rows t (s.rows t ++ (schema t).numbered (s.next t) rows)
    next := Function.update s.next t ((schema t).after^[rows.length] (s.next t)) }

variable {schema}

omit [DecidableEq V] in
theorem subset_inserted (s : Session Name T V) (t : T) (rows : List (Row Name V)) (t' : T) :
    s.rows t' ⊆ (s.inserted schema t rows).rows t' := by
  intro row hrow
  by_cases ht : t' = t
  · subst ht
    simp only [Session.inserted, Function.update_self]
    exact List.mem_append_left _ hrow
  · simp only [Session.inserted, Function.update_of_ne ht]
    exact hrow

omit [DecidableEq V] in
theorem inserted_inserted (s : Session Name T V) (t : T) (row : Row Name V)
    (rows : List (Row Name V)) :
    (s.inserted schema t [row]).inserted schema t rows = s.inserted schema t (row :: rows) := by
  simp [Session.inserted, Relation.numbered]

/-- Every way an insert can end. -/
theorem insert_cases (t : T) (row : Row Name V) (s : Session Name T V) :
    (∃ v, insert schema t row s = .error v { s with
        next := Function.update s.next t ((schema t).after (s.next t)) }) ∨
      insert schema t row s = .ok () (s.inserted schema t [row]) ∧
        (schema t).fits ((schema t).filled (s.next t) row) = true ∧
        (∀ key ∈ (schema t).keys, ∀ r ∈ s.rows t,
          clashes key r ((schema t).filled (s.next t) row) = false) ∧
        Refers s.rows (schema t).references ((schema t).filled (s.next t) row) := by
  rw [insert, run_get_bind, run_set_bind]
  split_ifs with hfits hunique hreferred
  · exact .inl ⟨.check, rfl⟩
  · exact .inl ⟨.unique, rfl⟩
  · exact .inl ⟨.reference, rfl⟩
  · simp only [Bool.not_eq_true', Bool.not_eq_false] at hfits hunique hreferred
    exact .inr ⟨rfl, hfits, unique_iff.mp hunique, referred_iff.mp hreferred⟩

theorem insert_ok {t : T} {row : Row Name V} {s : Session Name T V}
    (hfits : (schema t).fits ((schema t).filled (s.next t) row) = true)
    (hunique : ∀ key ∈ (schema t).keys, ∀ r ∈ s.rows t,
      clashes key r ((schema t).filled (s.next t) row) = false)
    (hrefers : Refers s.rows (schema t).references ((schema t).filled (s.next t) row)) :
    insert schema t row s = .ok () (s.inserted schema t [row]) := by
  rw [insert, run_get_bind, run_set_bind]
  dsimp only
  rw [hfits, unique_iff.mpr hunique, referred_iff.mpr hrefers]
  rfl

/-- A row whose key is taken is refused, whatever it refers to. -/
theorem insert_unique {t : T} {row : Row Name V} {s : Session Name T V}
    (hfits : (schema t).fits ((schema t).filled (s.next t) row) = true)
    {key : List Name} (hkey : key ∈ (schema t).keys) {r : Row Name V} (hr : r ∈ s.rows t)
    (hclash : clashes key r ((schema t).filled (s.next t) row) = true) :
    insert schema t row s =
      .error .unique { s with
        next := Function.update s.next t ((schema t).after (s.next t)) } := by
  have htaken : unique (schema t).keys (s.rows t) ((schema t).filled (s.next t) row) = false := by
    rw [Bool.eq_false_iff, ne_eq, unique_iff]
    intro hunique
    rw [hunique key hkey r hr] at hclash
    cases hclash
  rw [insert, run_get_bind, run_set_bind]
  dsimp only
  rw [hfits, htaken]
  rfl

/-- A batch is accepted if the table obeys its constraints with it. -/
theorem insertAll_ok {t : T} {rows : List (Row Name V)} {s : Session Name T V}
    (hfits : ∀ row ∈ (schema t).numbered (s.next t) rows, (schema t).fits row = true)
    (hunique : ∀ key ∈ (schema t).keys, (s.rows t ++ (schema t).numbered (s.next t) rows).Pairwise
      fun r r' => clashes key r r' = false)
    (hrefers : ∀ row ∈ (schema t).numbered (s.next t) rows,
      Refers s.rows (schema t).references row) :
    insertAll schema t rows s = .ok () (s.inserted schema t rows) := by
  induction rows generalizing s with
  | nil =>
    simp [insertAll, Session.inserted, Relation.numbered]
  | cons row rows ih =>
    simp only [Relation.numbered, List.forall_mem_cons] at hfits hrefers
    have hrow := insert_ok hfits.1
      (fun key hkey r hr => (List.pairwise_append.mp (hunique key hkey)).2.2 r hr _
        List.mem_cons_self) hrefers.1
    have hnext : (s.inserted schema t [row]).next t = (schema t).after (s.next t) := by
      simp [Session.inserted]
    have hrows : (s.inserted schema t [row]).rows t =
        s.rows t ++ [(schema t).filled (s.next t) row] := by
      simp [Session.inserted, Relation.numbered]
    rw [insertAll, List.forM_cons, run_bind_ok hrow, ← insertAll, ← inserted_inserted s t row rows]
    apply ih
    · rw [hnext]
      exact hfits.2
    · intro key hkey
      rw [hnext, hrows, List.append_assoc]
      exact hunique key hkey
    · rw [hnext]
      intro r hr
      exact (hrefers.2 r hr).mono fun ref _ => subset_inserted s t [row] ref.table

omit [DecidableEq T] [DecidableEq V] in
theorem numbered_of_serial_none {rel : Relation Name T V} (h : rel.serial = none) (n : ℕ)
    (rows : List (Row Name V)) : rel.numbered n rows = rows := by
  induction rows generalizing n with
  | nil => rfl
  | cons row rows ih => rw [Relation.numbered, ih, Relation.filled, h]

omit [DecidableEq T] [DecidableEq V] in
theorem numbered_of_serial_some {rel : Relation Name T V} {fill : ℕ → Row Name V → Row Name V}
    (h : rel.serial = some fill) (n : ℕ) (rows : List (Row Name V)) :
    rel.numbered n rows = (rows.zipIdx n).map fun p => fill p.2 p.1 := by
  induction rows generalizing n with
  | nil => rfl
  | cons row rows ih =>
    have hafter : rel.after n = n + 1 := by rw [Relation.after, h]; rfl
    rw [Relation.numbered, hafter, ih, Relation.filled, h]
    rfl

omit [DecidableEq T] in
/-- Rows with different keys do not clash. -/
theorem pairwise_of_nodup {key : List Name} {rows : List (Row Name V)}
    (h : (rows.map fun r => key.map r).Nodup) :
    rows.Pairwise fun r r' => clashes key r r' = false := by
  apply (List.pairwise_map.mp h).imp
  intro r r' hne
  rw [Bool.eq_false_iff, ne_eq, clashes_iff]
  intro hclash
  exact hne (List.map_congr_left fun c hc => (hclash c hc).2)

/-! ### Loading in the order of the references -/

section Batches

/-- Tables that come behind the tables they refer to. -/
def Ordered (schema : T → Relation Name T V) : List T → List T → Prop
  | _, [] => True
  | before, t :: ts =>
    (∀ ref ∈ (schema t).references, ref.table ∈ before) ∧ t ∉ before ∧ t ∉ ts ∧
      Ordered schema (t :: before) ts

/-- A session that has loaded these tables and otherwise is as it was. -/
structure LoadedInto (target : T → List (Row Name V)) (ts : List T)
    (s s' : Session Name T V) : Prop where
  rows : ∀ t ∈ ts, s'.rows t = target t
  others : ∀ t, t ∉ ts → s'.rows t = s.rows t ∧ s'.next t = s.next t
  saved : s'.saved = s.saved

/-- A valid target is reached by loading its tables, empty before, in the order of their
references. -/
theorem insertBatches_ok {target : T → List (Row Name V)} (hvalid : Valid schema target)
    {batches : List (T × List (Row Name V))} {before : List T} {s : Session Name T V}
    (hordered : Ordered schema before (batches.map Prod.fst))
    (hbefore : ∀ t ∈ before, s.rows t = target t)
    (hempty : ∀ b ∈ batches, s.rows b.1 = [])
    (htarget : ∀ b ∈ batches, (schema b.1).numbered (s.next b.1) b.2 = target b.1) :
    ∃ s', forM batches (fun b => insertAll schema b.1 b.2) s = .ok () s' ∧
      LoadedInto target (batches.map Prod.fst) s s' := by
  induction batches generalizing before s with
  | nil => exact ⟨s, rfl, nofun, fun _ _ => ⟨rfl, rfl⟩, rfl⟩
  | cons b batches ih =>
    obtain ⟨t, rows⟩ := b
    obtain ⟨hrefs, -, hlater, hrest⟩ := hordered
    obtain ⟨hempty, hempties⟩ := List.forall_mem_cons.mp hempty
    obtain ⟨htarget, htargets⟩ := List.forall_mem_cons.mp htarget
    dsimp only at hempty htarget
    have hbatch : insertAll schema t rows s = .ok () (s.inserted schema t rows) := by
      apply insertAll_ok
      · rw [htarget]
        exact hvalid.fits t
      · intro key hkey
        rw [hempty, htarget, List.nil_append]
        exact hvalid.unique t key hkey
      · intro row hrow ref href v hv
        rw [htarget] at hrow
        rw [hbefore _ (hrefs ref href)]
        exact hvalid.refers t row hrow ref href v hv
    have hnew : (s.inserted schema t rows).rows t = target t := by
      simp only [Session.inserted, Function.update_self]
      rw [hempty, htarget, List.nil_append]
    have hsame : ∀ t', t' ≠ t → (s.inserted schema t rows).rows t' = s.rows t' ∧
        (s.inserted schema t rows).next t' = s.next t' := by
      intro t' ht
      simp only [Session.inserted, Function.update_of_ne ht, and_self]
    have hne : ∀ b ∈ batches, b.1 ≠ t := by
      intro b hb heq
      have hmem : b.1 ∈ batches.map Prod.fst := List.mem_map_of_mem hb
      rw [heq] at hmem
      exact hlater hmem
    obtain ⟨s', hrun, hloaded⟩ := @ih (t :: before) (s.inserted schema t rows) hrest
      (List.forall_mem_cons.mpr ⟨hnew, fun t' ht => by
        by_cases heq : t' = t
        · rw [heq, hnew]
        · rw [(hsame t' heq).1, hbefore t' ht]⟩)
      (fun b hb => by rw [(hsame _ (hne b hb)).1, hempties b hb])
      (fun b hb => by rw [(hsame _ (hne b hb)).2, htargets b hb])
    refine ⟨s', by rw [List.forM_cons, run_bind_ok hbatch, hrun], ?_, ?_, hloaded.saved⟩
    · intro t' ht
      rcases List.mem_cons.mp ht with rfl | ht
      · rw [(hloaded.others _ hlater).1, hnew]
      · exact hloaded.rows t' ht
    · intro t' ht
      obtain ⟨hhead, htail⟩ := List.ne_and_not_mem_of_not_mem_cons ht
      rw [(hloaded.others t' htail).1, (hloaded.others t' htail).2]
      exact hsame t' hhead

/-- A batch that has been accepted is the end of its table. -/
theorem insertAll_eq_ok {t : T} {rows : List (Row Name V)} {s s' : Session Name T V}
    (h : insertAll schema t rows s = .ok () s') : s' = s.inserted schema t rows := by
  induction rows generalizing s with
  | nil =>
    cases h
    simp [Session.inserted, Relation.numbered]
  | cons row rows ih =>
    rw [insertAll, List.forM_cons, ← insertAll] at h
    obtain ⟨_, s₁, hrow, hrows⟩ := run_bind_eq_ok.mp h
    rcases insert_cases t row s with ⟨v, hrun⟩ | ⟨hrun, -⟩
    · cases hrow.symm.trans hrun
    · cases hrow.symm.trans hrun
      rw [ih hrows, inserted_inserted]

theorem insertBatches_eq_ok {batches : List (T × List (Row Name V))} {s s' : Session Name T V}
    (h : forM batches (fun b => insertAll schema b.1 b.2) s = .ok () s')
    (hnodup : (batches.map Prod.fst).Nodup) (hempty : ∀ b ∈ batches, s.rows b.1 = []) :
    ∀ b ∈ batches, s'.rows b.1 = (schema b.1).numbered (s.next b.1) b.2 := by
  suffices hgen : ∀ t, (∀ b ∈ batches, b.1 = t → s'.rows t =
      s.rows t ++ (schema t).numbered (s.next t) b.2) ∧
      (t ∉ batches.map Prod.fst → s'.rows t = s.rows t) by
    intro b hb
    rw [(hgen b.1).1 b hb rfl, hempty b hb, List.nil_append]
  intro t
  clear hempty
  induction batches generalizing s with
  | nil =>
    cases h
    exact ⟨nofun, fun _ => rfl⟩
  | cons b batches ih =>
    rw [List.forM_cons] at h
    obtain ⟨_, s₁, hfirst, hrest⟩ := run_bind_eq_ok.mp h
    obtain rfl := insertAll_eq_ok hfirst
    obtain ⟨hnot, hnodup⟩ := List.nodup_cons.mp hnodup
    obtain ⟨hin, hout⟩ := ih hrest hnodup
    by_cases ht : b.1 = t
    · subst ht
      have hlast : s'.rows b.1 = s.rows b.1 ++ (schema b.1).numbered (s.next b.1) b.2 := by
        rw [hout hnot]
        simp only [Session.inserted, Function.update_self]
      refine ⟨?_, fun hmem => absurd List.mem_cons_self hmem⟩
      intro b' hb' heq
      rcases List.mem_cons.mp hb' with rfl | hb'
      · exact hlast
      · rw [← heq] at hnot
        exact absurd (List.mem_map_of_mem hb') hnot
    · have hsame : (s.inserted schema b.1 b.2).rows t = s.rows t ∧
          (s.inserted schema b.1 b.2).next t = s.next t := by
        simp only [Session.inserted, Function.update_of_ne (Ne.symm ht), and_self]
      rw [hsame.1, hsame.2] at hin
      rw [hsame.1] at hout
      refine ⟨?_, fun hmem => hout (List.not_mem_of_not_mem_cons hmem)⟩
      intro b' hb' heq
      rcases List.mem_cons.mp hb' with rfl | hb'
      · exact absurd heq ht
      · exact hin b' hb' heq

/-- Only the sequences of these tables have moved. -/
def Frame (ts : List T) (next : T → ℕ) (saved : T → Option ℕ) (s : Session Name T V) : Prop :=
  s.saved = saved ∧ ∀ t ∉ ts, s.next t = next t

theorem keeps_frame_insertAll {ts : List T} {t : T} (ht : t ∈ ts) (rows : List (Row Name V))
    (next : T → ℕ) (saved : T → Option ℕ) :
    Keeps (Frame ts next saved) (insertAll schema t rows) := by
  apply keeps_forM
  intro row _ s hs
  obtain ⟨hsaved, hnext⟩ := hs
  have hmoved : ∀ n, ∀ t' ∉ ts, Function.update s.next t n t' = next t' := by
    intro n t' ht'
    have hne : t' ≠ t := by
      rintro rfl
      exact ht' ht
    rw [Function.update_of_ne hne, hnext t' ht']
  unfold wp
  rcases insert_cases t row s with ⟨v, hrun⟩ | ⟨hrun, -⟩
  · rw [hrun]
    exact ⟨hsaved, hmoved _⟩
  · rw [hrun]
    exact ⟨hsaved, hmoved _⟩

end Batches

/-! ### What keeps a database valid -/

theorem Valid.inserted {s : Session Name T V} (h : Valid schema s.rows) {t : T}
    {row : Row Name V} (hfits : (schema t).fits ((schema t).filled (s.next t) row) = true)
    (hunique : ∀ key ∈ (schema t).keys, ∀ r ∈ s.rows t,
      clashes key r ((schema t).filled (s.next t) row) = false)
    (hrefers : Refers s.rows (schema t).references ((schema t).filled (s.next t) row)) :
    Valid schema (s.inserted schema t [row]).rows := by
  have hsame : ∀ t', t' ≠ t → (s.inserted schema t [row]).rows t' = s.rows t' := by
    intro t' ht
    simp only [Session.inserted, Function.update_of_ne ht]
  have hnew : (s.inserted schema t [row]).rows t =
      s.rows t ++ [(schema t).filled (s.next t) row] := by
    simp [Session.inserted, Relation.numbered]
  constructor
  · intro t' r hr
    by_cases ht : t' = t
    · subst ht
      rw [hnew] at hr
      rcases List.mem_append.mp hr with hr | hr
      · exact h.fits t' r hr
      · rw [List.mem_singleton.mp hr]
        exact hfits
    · rw [hsame t' ht] at hr
      exact h.fits t' r hr
  · intro t' key hkey
    by_cases ht : t' = t
    · subst ht
      rw [hnew]
      refine List.pairwise_append.mpr ⟨h.unique t' key hkey, List.pairwise_singleton _ _, ?_⟩
      intro r hr r' hr'
      rw [List.mem_singleton.mp hr']
      exact hunique key hkey r hr
    · rw [hsame t' ht]
      exact h.unique t' key hkey
  · intro t' r hr
    apply Refers.mono _ fun ref _ => subset_inserted s t [row] ref.table
    by_cases ht : t' = t
    · subst ht
      rw [hnew] at hr
      rcases List.mem_append.mp hr with hr | hr
      · exact h.refers t' r hr
      · rw [List.mem_singleton.mp hr]
        exact hrefers
    · rw [hsame t' ht] at hr
      exact h.refers t' r hr

/-- A program that leaves valid tables valid, whether it returns or raises. -/
abbrev KeepsValid (schema : T → Relation Name T V) {α : Type} (p : SessionM Name T V α) : Prop :=
  Keeps (fun s => Valid schema s.rows) p

theorem keepsValid_insert (t : T) (row : Row Name V) : KeepsValid schema (insert schema t row) := by
  intro s hs
  unfold wp
  rcases insert_cases t row s with ⟨v, hrun⟩ | ⟨hrun, hfits, hunique, hrefers⟩
  · rw [hrun]
    exact hs
  · rw [hrun]
    exact hs.inserted hfits hunique hrefers

theorem keepsValid_insertAll (t : T) (rows : List (Row Name V)) :
    KeepsValid schema (insertAll schema t rows) :=
  keeps_forM fun row _ => keepsValid_insert t row

omit [DecidableEq T] in
theorem keepsValid_count (t : T) : KeepsValid schema (count t : SessionM Name T V ℕ) :=
  fun _ hs => hs

theorem keepsValid_truncate {ts : List T} (hclosed : Closed schema ts) :
    KeepsValid schema (truncate ts) := by
  intro s hs
  change Valid schema fun t => if t ∈ ts then [] else s.rows t
  constructor
  · intro t row hrow
    split_ifs at hrow with ht
    · cases hrow
    · exact hs.fits t row hrow
  · intro t key hkey
    split_ifs with ht
    · exact List.Pairwise.nil
    · exact hs.unique t key hkey
  · intro t row hrow
    split_ifs at hrow with ht
    · cases hrow
    · intro ref href v hv
      dsimp only
      rw [if_neg (hclosed t ht ref href)]
      exact hs.refers t row hrow ref href v hv

omit [DecidableEq T] in
/-- A transaction of such a program keeps the database valid, committed or not. -/
theorem valid_transaction {α : Type} {p : SessionM Name T V α} (hp : KeepsValid schema p)
    {db : Database Name T V} (h : Valid schema db.rows) :
    Valid schema (final (transaction p db)).rows := by
  have hnext := hp { db with } h
  unfold wp at hnext
  unfold transaction
  cases hrun : p { db with } with
  | ok a s =>
    rw [hrun] at hnext
    exact hnext
  | error v s => exact h

end Valid

end GroundedOps.Relational
