import GroundedOps.Library.Dict
import GroundedOps.Retrieval.Types

/-!
# Per-request citation registry

Every chunk surfaced by a retrieval step is entered once and keeps the 1-based
index of its first appearance. The registry carries the facts that make its
look-ups total: the order lists the dictionary's keys, and the entry at position
`i` has index `i + 1`.
-/

namespace GroundedOps.Agent

open Python Retrieval

def recordOpen : Text := "<<<RECORD".toList

def recordClose : Text := "RECORD>>>".toList

def snippetChars : ℕ := 240

def snippet (content : Text) : Text := (join " ".toList (split content)).take snippetChars

structure CitationEntry where
  index : ℕ
  chunkId : Text
  docId : Text
  sourceType : Text
  title : Text
  snippet : Text
  charStart : ℤ
  charEnd : ℤ
  content : Text
  deriving DecidableEq, Repr

/-- The header line of a record behind its label, the fence line excluded. -/
def recordHeader (e : CitationEntry) : Text :=
  " source_type=".toList ++ e.sourceType ++ " doc_id=".toList ++ e.docId ++
    " title=\"".toList ++ e.title ++ "\"".toList

def renderRecord (e : CitationEntry) : Text :=
  '[' :: str e.index ++ ']' :: recordHeader e ++ '\n' :: recordOpen ++ '\n' :: e.content ++
    '\n' :: recordClose

/-- Render citation entries as labelled, fenced records for a prompt. -/
def renderRecords (entries : List CitationEntry) : Text :=
  join "\n\n".toList (entries.map renderRecord)

@[simp] theorem renderRecords_nil : renderRecords [] = [] := rfl

@[simp] theorem renderRecords_singleton (e : CitationEntry) :
    renderRecords [e] = renderRecord e := by
  simp [renderRecords, join, List.intercalate]

@[simp] theorem renderRecords_cons_cons (e e' : CitationEntry) (es : List CitationEntry) :
    renderRecords (e :: e' :: es) = renderRecord e ++ '\n' :: '\n' :: renderRecords (e' :: es) := by
  simp [renderRecords, join, List.intercalate]

theorem renderRecord_infix_renderRecords (e : CitationEntry) (es : List CitationEntry) :
    renderRecord e <:+: renderRecords (e :: es) := by
  cases es with
  | nil => simp
  | cons e' es =>
    rw [renderRecords_cons_cons]
    exact (List.prefix_append _ _).isInfix

theorem renderRecords_isEmpty (es : List CitationEntry) :
    (renderRecords es).isEmpty = es.isEmpty := by
  cases es with
  | nil => rfl
  | cons e es =>
    have h := renderRecord_infix_renderRecords e es
    cases hr : renderRecords (e :: es) with
    | nil => simp [hr, renderRecord] at h
    | cons => rfl

structure CitationRegistry where
  byChunk : Dict Text CitationEntry
  order : List Text
  order_eq : order = byChunk.keys
  numbered : byChunk.values.map CitationEntry.index = List.range' 1 byChunk.values.length
  labelled : byChunk.values.map CitationEntry.chunkId = byChunk.keys

/-- The entry created for a chunk at its first appearance. -/
def CitationEntry.ofChunk {F : Type*} (index : ℕ) (chunk : RetrievedChunk F) : CitationEntry :=
  { index, chunkId := chunk.chunkId, docId := chunk.docId, sourceType := chunk.sourceType,
    title := chunk.title, snippet := Agent.snippet chunk.content, charStart := chunk.charStart,
    charEnd := chunk.charEnd, content := chunk.content }

namespace CitationRegistry

variable {F : Type*}

def empty : CitationRegistry := ⟨Dict.empty, [], rfl, rfl, rfl⟩

def len (r : CitationRegistry) : ℕ := r.order.length

theorem len_eq (r : CitationRegistry) : r.len = r.byChunk.values.length := by
  simp [len, r.order_eq]

/-- The branch of `add` for a chunk that has no entry yet. -/
def enter (r : CitationRegistry) (chunk : RetrievedChunk F)
    (h : chunk.chunkId ∉ r.byChunk.keys) : CitationRegistry :=
  let entry := CitationEntry.ofChunk (r.order.length + 1) chunk
  have hitems : (r.byChunk.set chunk.chunkId entry).items =
      r.byChunk.items ++ [(chunk.chunkId, entry)] := Dict.items_set_of_notMem h entry
  have hkeys : (r.byChunk.set chunk.chunkId entry).keys = r.byChunk.keys ++ [chunk.chunkId] := by
    simp [Dict.keys, hitems]
  have hvalues : (r.byChunk.set chunk.chunkId entry).values = r.byChunk.values ++ [entry] := by
    simp [Dict.values, hitems]
  { byChunk := r.byChunk.set chunk.chunkId entry
    order := r.order ++ [chunk.chunkId]
    order_eq := by rw [hkeys, r.order_eq]
    numbered := by
      have hlen : entry.index = 1 + r.byChunk.values.length := by
        rw [← r.len_eq, Nat.add_comm]
        rfl
      rw [hvalues, List.map_append, r.numbered, List.length_append, List.length_singleton,
        List.range'_concat, Nat.one_mul]
      simp [hlen]
    labelled := by
      rw [hvalues, hkeys, List.map_append, r.labelled]
      rfl }

/-- One round of the loop of `add`. -/
def addOne (r : CitationRegistry) (chunk : RetrievedChunk F) : CitationRegistry × ℕ :=
  match h : r.byChunk.get? chunk.chunkId with
  | some entry => (r, entry.index)
  | none => (r.enter chunk (Dict.get?_eq_none.mp h), r.order.length + 1)

/-- Add chunks; return their indices in input order. -/
def add (r : CitationRegistry) : List (RetrievedChunk F) → CitationRegistry × List ℕ
  | [] => (r, [])
  | chunk :: chunks =>
    let first := r.addOne chunk
    let rest := first.1.add chunks
    (rest.1, first.2 :: rest.2)

def entries (r : CitationRegistry) : List CitationEntry := r.order.filterMap r.byChunk.get?

def hasIndex (r : CitationRegistry) (index : ℤ) : Bool := 1 ≤ index && index ≤ r.order.length

def get (r : CitationRegistry) (index : ℤ) : Option CitationEntry :=
  if r.hasIndex index then (r.order[(index - 1).toNat]?).bind r.byChunk.get? else none

/-- The loop of `entries_for` with the indices seen so far. -/
def entriesForFrom (r : CitationRegistry) : List ℤ → List ℤ → List CitationEntry
  | _, [] => []
  | seen, index :: indices =>
    match r.get index with
    | some entry =>
      if index ∈ seen then r.entriesForFrom seen indices
      else entry :: r.entriesForFrom (index :: seen) indices
    | none => r.entriesForFrom seen indices

def entriesFor (r : CitationRegistry) (indices : List ℤ) : List CitationEntry :=
  r.entriesForFrom [] indices

def renderForPrompt (r : CitationRegistry) : Text := renderRecords r.entries

/-! ### The entries as a numbered list -/

theorem entries_eq_values (r : CitationRegistry) : r.entries = r.byChunk.values := by
  rw [entries, r.order_eq, Dict.keys, List.filterMap_map, Dict.values, ← List.filterMap_eq_map]
  refine List.filterMap_congr fun p hp => ?_
  exact Dict.get?_eq_some.mpr hp

@[simp] theorem length_entries (r : CitationRegistry) : r.entries.length = r.order.length := by
  rw [entries_eq_values, ← len_eq, len]

theorem map_index_entries (r : CitationRegistry) :
    r.entries.map CitationEntry.index = List.range' 1 r.entries.length := by
  rw [entries_eq_values, r.numbered]

theorem map_chunkId_entries (r : CitationRegistry) :
    r.entries.map CitationEntry.chunkId = r.order := by
  rw [entries_eq_values, r.labelled, r.order_eq]

theorem nodup_chunkId (r : CitationRegistry) : (r.entries.map CitationEntry.chunkId).Nodup := by
  rw [map_chunkId_entries, r.order_eq]
  exact r.byChunk.nodup_keys

theorem hasIndex_iff {r : CitationRegistry} {i : ℕ} :
    r.hasIndex i = true ↔ ∃ e ∈ r.entries, e.index = i := by
  have hmem : i ∈ r.entries.map CitationEntry.index ↔ 1 ≤ i ∧ i ≤ r.order.length := by
    rw [map_index_entries, List.mem_range'_1, length_entries]
    omega
  rw [← List.mem_map, hmem]
  simp [hasIndex]

theorem index_injective {r : CitationRegistry} {e₁ e₂ : CitationEntry} (h₁ : e₁ ∈ r.entries)
    (h₂ : e₂ ∈ r.entries) (h : e₁.index = e₂.index) : e₁ = e₂ := by
  have hnd : (r.entries.map CitationEntry.index).Nodup := by
    rw [map_index_entries]
    exact List.nodup_range'
  exact List.inj_on_of_nodup_map hnd h₁ h₂ h

theorem entries_getElem? (r : CitationRegistry) (k : ℕ) :
    r.entries[k]? = (r.order[k]?).bind r.byChunk.get? := by
  rw [entries_eq_values, r.order_eq, Dict.values, Dict.keys, List.getElem?_map,
    List.getElem?_map]
  cases h : r.byChunk.items[k]? with
  | none => rfl
  | some p => exact (Dict.get?_eq_some.mpr (List.mem_of_getElem? h)).symm

theorem index_of_getElem? {r : CitationRegistry} {k : ℕ} {e : CitationEntry}
    (h : r.entries[k]? = some e) : e.index = k + 1 := by
  have hk := (List.getElem?_eq_some_iff.mp h).1
  have hi : (r.entries.map CitationEntry.index)[k]? = some e.index := by simp [h]
  rw [map_index_entries, List.getElem?_range' hk] at hi
  simpa [Nat.add_comm] using hi.symm

theorem get_eq_some {r : CitationRegistry} {i : ℤ} {e : CitationEntry} :
    r.get i = some e ↔ e ∈ r.entries ∧ (e.index : ℤ) = i := by
  constructor
  · intro h
    rw [get] at h
    split_ifs at h with hi
    rw [← entries_getElem?] at h
    have hpos : 1 ≤ i := by
      simp only [hasIndex, Bool.and_eq_true, decide_eq_true_eq] at hi
      omega
    refine ⟨List.mem_of_getElem? h, ?_⟩
    have hidx := index_of_getElem? h
    omega
  · rintro ⟨he, rfl⟩
    obtain ⟨k, hk⟩ := List.mem_iff_getElem?.mp he
    have hidx := index_of_getElem? hk
    have hnat : ((e.index : ℤ) - 1).toNat = k := by omega
    rw [get, if_pos (hasIndex_iff.mpr ⟨e, he, rfl⟩), hnat, ← entries_getElem?, hk]

theorem mem_entriesForFrom {r : CitationRegistry} {seen indices : List ℤ} {e : CitationEntry} :
    e ∈ r.entriesForFrom seen indices ↔
      e ∈ r.entries ∧ (e.index : ℤ) ∈ indices ∧ (e.index : ℤ) ∉ seen := by
  induction indices generalizing seen with
  | nil => simp [entriesForFrom]
  | cons i indices ih =>
    rw [entriesForFrom]
    cases hg : r.get i with
    | none =>
      have hne : e ∈ r.entries → (e.index : ℤ) ≠ i := by
        intro he hi
        rw [get_eq_some.mpr ⟨he, hi⟩] at hg
        cases hg
      simp only [ih, List.mem_cons]
      tauto
    | some entry =>
      obtain ⟨hm, hidx⟩ := get_eq_some.mp hg
      have huniq : e ∈ r.entries → ((e.index : ℤ) = i ↔ e = entry) := fun he =>
        ⟨fun h => index_injective he hm (Int.ofNat.inj (h.trans hidx.symm)), fun h => h ▸ hidx⟩
      by_cases hs : i ∈ seen
      · simp only [hs, if_true, ih, List.mem_cons]
        constructor
        · rintro ⟨h₁, h₂, h₃⟩
          exact ⟨h₁, Or.inr h₂, h₃⟩
        · rintro ⟨h₁, h₂ | h₂, h₃⟩
          · exact absurd (h₂ ▸ hs) h₃
          · exact ⟨h₁, h₂, h₃⟩
      · simp only [hs, if_false, List.mem_cons, ih, not_or]
        constructor
        · rintro (rfl | ⟨h₁, h₂, h₃, h₄⟩)
          · exact ⟨hm, Or.inl hidx, hidx ▸ hs⟩
          · exact ⟨h₁, Or.inr h₂, h₄⟩
        · rintro ⟨h₁, h₂, h₃⟩
          by_cases hi : (e.index : ℤ) = i
          · exact Or.inl ((huniq h₁).mp hi)
          · exact Or.inr ⟨h₁, h₂.resolve_left hi, hi, h₃⟩

@[simp] theorem mem_entriesFor {r : CitationRegistry} {indices : List ℤ} {e : CitationEntry} :
    e ∈ r.entriesFor indices ↔ e ∈ r.entries ∧ (e.index : ℤ) ∈ indices := by
  simp [entriesFor, mem_entriesForFrom]

/-! ### Adding chunks -/

theorem entries_enter (r : CitationRegistry) (chunk : RetrievedChunk F)
    (h : chunk.chunkId ∉ r.byChunk.keys) :
    (r.enter chunk h).entries =
      r.entries ++ [CitationEntry.ofChunk (r.order.length + 1) chunk] := by
  simp only [entries_eq_values, enter, Dict.values, Dict.items_set_of_notMem h]
  simp

/-- An addition either finds the chunk's entry or appends a new one. -/
theorem addOne_cases (r : CitationRegistry) (chunk : RetrievedChunk F) :
    (∃ e ∈ r.entries, e.chunkId = chunk.chunkId ∧ r.addOne chunk = (r, e.index)) ∨
    (chunk.chunkId ∉ r.order ∧
      (r.addOne chunk).1.entries =
        r.entries ++ [CitationEntry.ofChunk (r.order.length + 1) chunk] ∧
      (r.addOne chunk).2 = r.order.length + 1) := by
  rw [addOne]
  split
  · next entry h =>
    left
    have hm : (chunk.chunkId, entry) ∈ r.byChunk.items := Dict.get?_eq_some.mp h
    obtain ⟨k, hk⟩ := List.mem_iff_getElem?.mp hm
    have hlab : (r.byChunk.values.map CitationEntry.chunkId)[k]? = r.byChunk.keys[k]? := by
      rw [r.labelled]
    simp only [Dict.values, Dict.keys, List.getElem?_map, hk, Option.map_some,
      Option.some.injEq] at hlab
    refine ⟨entry, ?_, hlab, rfl⟩
    rw [entries_eq_values]
    exact List.mem_map.mpr ⟨_, hm, rfl⟩
  · next h =>
    right
    have hno := Dict.get?_eq_none.mp h
    exact ⟨by rwa [r.order_eq], entries_enter r chunk hno, rfl⟩

/-- `add` only appends: entries once created stay where they are, every index it
returns is valid, and every entry it creates is among the returned indices. -/
theorem add_spec (r : CitationRegistry) (chunks : List (RetrievedChunk F)) :
    ∃ new, (r.add chunks).1.entries = r.entries ++ new ∧
      ∀ e ∈ new, e.index ∈ (r.add chunks).2 := by
  induction chunks generalizing r with
  | nil => exact ⟨[], by simp [add], by simp⟩
  | cons chunk chunks ih =>
    obtain ⟨new, hnew, hidx⟩ := ih (r.addOne chunk).1
    rcases addOne_cases r chunk with ⟨e, he, hid, hr⟩ | ⟨hno, hent, hi⟩
    · refine ⟨new, ?_, fun x hx => ?_⟩
      · rw [add, hnew, hr]
      · rw [add]
        exact List.mem_cons_of_mem _ (hidx x hx)
    · refine ⟨CitationEntry.ofChunk (r.order.length + 1) chunk :: new, ?_, fun x hx => ?_⟩
      · rw [add, hnew, hent]
        simp
      · rw [add]
        rcases List.mem_cons.mp hx with rfl | hx
        · exact List.mem_cons.mpr (Or.inl hi.symm)
        · exact List.mem_cons_of_mem _ (hidx x hx)

theorem entries_subset_add (r : CitationRegistry) (chunks : List (RetrievedChunk F)) :
    r.entries ⊆ (r.add chunks).1.entries := by
  obtain ⟨new, hnew, -⟩ := r.add_spec chunks
  rw [hnew]
  exact List.subset_append_left _ _

end CitationRegistry

end GroundedOps.Agent
