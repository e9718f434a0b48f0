import GroundedOps.Agent.CitationRegistry
import GroundedOps.Library.FirstOccurrences

/-!
# Numbering of the first occurrences

After any sequence of additions the registry holds the first occurrences of all chunks that
were added, numbered from one. An addition returns positions in that list, and what is added
later leaves them alone.
-/

namespace GroundedOps.Agent

open Python Retrieval

variable {F : Type*}

/-- The entries of the first chunks with an id, in order. -/
def numberedEntries (chunks : List (RetrievedChunk F)) : List CitationEntry :=
  (firstsBy RetrievedChunk.chunkId chunks).mapIdx fun i chunk => CitationEntry.ofChunk (i + 1) chunk

/-- The ids of chunks in the order of their first occurrences. -/
def firstIds (chunks : List (RetrievedChunk F)) : List Text :=
  (firstsBy RetrievedChunk.chunkId chunks).map RetrievedChunk.chunkId

/-- The positions, counted from one, that chunks have in a list of ids. -/
def positionsIn (ids : List Text) (chunks : List (RetrievedChunk F)) : List ℕ :=
  chunks.map fun chunk => ids.idxOf chunk.chunkId + 1

theorem map_chunkId_numberedEntries (chunks : List (RetrievedChunk F)) :
    (numberedEntries chunks).map CitationEntry.chunkId = firstIds chunks := by
  apply List.ext_getElem
  · simp [numberedEntries, firstIds]
  · intro i _ _
    simp [numberedEntries, firstIds, CitationEntry.ofChunk]

theorem mem_firstIds {chunks : List (RetrievedChunk F)} {chunk : RetrievedChunk F}
    (h : chunk ∈ chunks) : chunk.chunkId ∈ firstIds chunks :=
  mem_map_firstsBy.mpr (List.mem_map_of_mem h)

theorem firstIds_isPrefix (chunks chunks' : List (RetrievedChunk F)) :
    firstIds chunks <+: firstIds (chunks ++ chunks') :=
  (firstsBy_isPrefix chunks chunks').map RetrievedChunk.chunkId

/-- Positions of ids that are listed stay when the list grows. -/
theorem positionsIn_of_isPrefix {ids ids' : List Text} (h : ids <+: ids')
    (chunks : List (RetrievedChunk F)) (hmem : ∀ chunk ∈ chunks, chunk.chunkId ∈ ids) :
    positionsIn ids' chunks = positionsIn ids chunks := by
  obtain ⟨rest, rfl⟩ := h
  apply List.map_congr_left
  intro chunk hchunk
  rw [List.idxOf_append_of_mem (hmem chunk hchunk)]

namespace CitationRegistry

/-- The registry after a sequence of additions, and what each of them returned. -/
def addAll (r : CitationRegistry) :
    List (List (RetrievedChunk F)) → CitationRegistry × List (List ℕ)
  | [] => (r, [])
  | chunks :: calls =>
    let first := r.add chunks
    let rest := first.1.addAll calls
    (rest.1, first.2 :: rest.2)

/-- The registry holds the first occurrences among `chunks`. -/
def Numbers (r : CitationRegistry) (chunks : List (RetrievedChunk F)) : Prop :=
  r.entries = numberedEntries chunks

theorem Numbers.order {r : CitationRegistry} {chunks : List (RetrievedChunk F)}
    (h : r.Numbers chunks) : r.order = firstIds chunks := by
  rw [← map_chunkId_entries, h, map_chunkId_numberedEntries]

theorem numbers_empty : empty.Numbers ([] : List (RetrievedChunk F)) := rfl

theorem Numbers.addOne {r : CitationRegistry} {chunks : List (RetrievedChunk F)}
    (h : r.Numbers chunks) (chunk : RetrievedChunk F) :
    (r.addOne chunk).1.Numbers (chunks ++ [chunk]) ∧
      (r.addOne chunk).2 = (r.addOne chunk).1.order.idxOf chunk.chunkId + 1 := by
  have hids : chunk.chunkId ∈ r.order ↔
      chunk.chunkId ∈ chunks.map RetrievedChunk.chunkId := by
    rw [h.order]
    exact mem_map_firstsBy
  rw [Numbers, numberedEntries, firstsBy_concat]
  rcases r.addOne_cases chunk with ⟨e, he, hid, hr⟩ | ⟨hno, hent, hi⟩
  · -- the chunk's entry is at the position that its index names
    obtain ⟨k, hk⟩ := List.mem_iff_getElem?.mp he
    have horder : r.order[k]? = some chunk.chunkId := by
      rw [← map_chunkId_entries, List.getElem?_map, hk, Option.map_some, hid]
    obtain ⟨hlt, hget⟩ := List.getElem?_eq_some_iff.mp horder
    have hnodup : r.order.Nodup := by
      rw [← map_chunkId_entries]
      exact r.nodup_chunkId
    have hmem : chunk.chunkId ∈ r.order := hget ▸ List.getElem_mem hlt
    rw [if_pos (hids.mp hmem), hr]
    refine ⟨h, ?_⟩
    rw [index_of_getElem? hk, ← hget, hnodup.idxOf_getElem k hlt]
  · have hlength : r.order.length = (firstsBy RetrievedChunk.chunkId chunks).length := by
      rw [h.order, firstIds, List.length_map]
    have horder : (r.addOne chunk).1.order = r.order ++ [chunk.chunkId] := by
      rw [← map_chunkId_entries, hent, List.map_append, map_chunkId_entries]
      rfl
    rw [if_neg (fun hmem => hno (hids.mpr hmem)), hent, hi, horder]
    constructor
    · rw [List.mapIdx_append, h, numberedEntries, hlength]
      simp
    · simp [List.idxOf_append_of_notMem hno]

theorem Numbers.add {r : CitationRegistry} {chunks : List (RetrievedChunk F)}
    (h : r.Numbers chunks) (new : List (RetrievedChunk F)) :
    (r.add new).1.Numbers (chunks ++ new) ∧
      (r.add new).2 = positionsIn (firstIds (chunks ++ new)) new := by
  induction new generalizing r chunks with
  | nil =>
    rw [List.append_nil]
    exact ⟨h, rfl⟩
  | cons chunk new ih =>
    obtain ⟨hfirst, hindex⟩ := h.addOne chunk
    obtain ⟨hrest, hindices⟩ := ih hfirst
    rw [List.append_assoc, List.singleton_append] at hrest hindices
    refine ⟨hrest, ?_⟩
    have hmem : chunk.chunkId ∈ firstIds (chunks ++ [chunk]) := mem_firstIds (by simp)
    have hsame := positionsIn_of_isPrefix (firstIds_isPrefix (chunks ++ [chunk]) new) [chunk]
      (by simpa using hmem)
    rw [List.append_assoc, List.singleton_append] at hsame
    rw [CitationRegistry.add, hindices, hindex, hfirst.order]
    have hhead : (firstIds (chunks ++ chunk :: new)).idxOf chunk.chunkId + 1 =
        (firstIds (chunks ++ [chunk])).idxOf chunk.chunkId + 1 := by
      simpa [positionsIn] using hsame
    rw [positionsIn, positionsIn, List.map_cons, hhead]

theorem Numbers.addAll {r : CitationRegistry} {chunks : List (RetrievedChunk F)}
    (h : r.Numbers chunks) (calls : List (List (RetrievedChunk F))) :
    (r.addAll calls).1.Numbers (chunks ++ calls.flatten) ∧
      (r.addAll calls).2 = calls.map (positionsIn (firstIds (chunks ++ calls.flatten))) := by
  induction calls generalizing r chunks with
  | nil =>
    rw [List.flatten_nil, List.append_nil]
    exact ⟨h, rfl⟩
  | cons new calls ih =>
    obtain ⟨hfirst, hindices⟩ := h.add new
    obtain ⟨hrest, hlater⟩ := ih hfirst
    rw [List.append_assoc, ← List.flatten_cons] at hrest hlater
    refine ⟨hrest, ?_⟩
    have hinit := firstIds_isPrefix (chunks ++ new) calls.flatten
    rw [List.append_assoc, ← List.flatten_cons] at hinit
    rw [CitationRegistry.addAll, hlater, hindices, List.map_cons,
      positionsIn_of_isPrefix hinit new]
    intro chunk hchunk
    exact mem_firstIds (List.mem_append_right chunks hchunk)

theorem addAll_isPrefix (r : CitationRegistry) (calls : List (List (RetrievedChunk F))) :
    r.entries <+: (r.addAll calls).1.entries := by
  induction calls generalizing r with
  | nil => exact List.prefix_rfl
  | cons new calls ih =>
    obtain ⟨fresh, hfresh, -⟩ := r.add_spec new
    have hfirst : r.entries <+: (r.add new).1.entries := hfresh ▸ List.prefix_append _ fresh
    exact hfirst.trans (ih (r.add new).1)

/-! ### Look-ups -/

theorem get_eq_ite (r : CitationRegistry) (index : ℤ) :
    r.get index = if 1 ≤ index ∧ index ≤ r.entries.length
      then r.entries[(index - 1).toNat]? else none := by
  rw [get, length_entries, entries_getElem?, hasIndex]
  simp

theorem isSome_get (r : CitationRegistry) (index : ℤ) :
    (r.get index).isSome = r.hasIndex index := by
  rw [get_eq_ite]
  split_ifs with h
  · have hlt : (index - 1).toNat < r.entries.length := by omega
    have hidx : r.hasIndex index = true := by
      rw [length_entries] at h
      simpa [hasIndex] using h
    rw [List.getElem?_eq_getElem hlt, hidx]
    rfl
  · have hidx : r.hasIndex index = false := by
      rw [length_entries] at h
      rw [hasIndex, ← decide_eq_false h]
      simp
    rw [hidx]
    rfl

/-- The loop skips an index that was seen and one that has no entry. -/
theorem entriesForFrom_eq (r : CitationRegistry) (seen indices : List ℤ) :
    r.entriesForFrom seen indices =
      ((firstsBy id indices).filter fun index => index ∉ seen).filterMap r.get := by
  induction indices generalizing seen with
  | nil => rfl
  | cons index indices ih =>
    rw [entriesForFrom, firstsBy, List.filter_cons, List.filter_filter]
    cases hg : r.get index with
    | none =>
      -- an index without an entry yields nothing wherever it stands
      have hdrop : (firstsBy id indices).filterMap (fun i => if i ∉ seen then r.get i else none) =
          (firstsBy id indices).filterMap
            (fun i => if i ∉ seen ∧ i ≠ index then r.get i else none) := by
        apply List.filterMap_congr
        intro i _
        by_cases hi : i = index
        · simp [hi, hg]
        · simp [hi]
      simp only [ih]
      split_ifs with hs
      · rw [List.filterMap_cons_none hg]
        simpa [List.filterMap_filter] using hdrop
      · simpa [List.filterMap_filter] using hdrop
    | some entry =>
      by_cases hs : index ∈ seen
      · have hsame : ∀ i : ℤ, (i ∉ seen ∧ i ≠ index) ↔ i ∉ seen := by
          intro i
          constructor
          · exact fun h => h.1
          · exact fun h => ⟨h, fun hi => h (hi ▸ hs)⟩
        simp only [hs, if_true, ih, not_true_eq_false, decide_false, Bool.false_eq_true, if_false]
        congr 1
        apply List.filter_congr
        intro i _
        simpa using (hsame i).symm
      · simp only [hs, if_false, ih, not_false_eq_true, decide_true, if_true,
          List.filterMap_cons_some hg]
        congr 2
        apply List.filter_congr
        intro i _
        simp [Bool.and_comm]

theorem entriesFor_eq (r : CitationRegistry) (indices : List ℤ) :
    r.entriesFor indices = (firstsBy id indices).filterMap r.get := by
  rw [entriesFor, entriesForFrom_eq]
  simp

theorem nodup_entriesFor (r : CitationRegistry) (indices : List ℤ) :
    (r.entriesFor indices).Nodup := by
  rw [entriesFor_eq]
  have hnodup : ((firstsBy id indices).map id).Nodup := nodup_map_firstsBy indices
  rw [List.map_id] at hnodup
  apply hnodup.filterMap
  intro i i' e hi hi'
  rw [← (get_eq_some.mp hi).2, (get_eq_some.mp hi').2]

/-- What a registry is after any sequence of additions, and what it stays. -/
theorem registry_numbers_first_occurrences (calls later : List (List (RetrievedChunk F)))
    (indices : List ℤ) :
    let chunks := calls.flatten
    let run := empty.addAll calls
    run.1.entries = numberedEntries chunks ∧
    (run.2 = calls.map (positionsIn (firstIds chunks)) ∧
      ∀ chunk ∈ chunks, chunk.chunkId ∈ firstIds chunks) ∧
    run.1.entries <+: (run.1.addAll later).1.entries ∧
    (∀ index : ℤ,
      (run.1.hasIndex index = true ↔ 1 ≤ index ∧ index ≤ (firstIds chunks).length) ∧
      (run.1.get index).isSome = run.1.hasIndex index ∧
      run.1.get index = if 1 ≤ index ∧ index ≤ (firstIds chunks).length
        then (numberedEntries chunks)[(index - 1).toNat]? else none) ∧
    run.1.entriesFor indices = (firstsBy id indices).filterMap run.1.get ∧
    (run.1.entriesFor indices).Nodup := by
  intro chunks run
  obtain ⟨hnumbers, hreturned⟩ := numbers_empty.addAll calls
  rw [List.nil_append] at hnumbers hreturned
  have hlength : run.1.entries.length = (firstIds chunks).length := by
    rw [length_entries, hnumbers.order]
  refine ⟨hnumbers, ⟨hreturned, fun chunk => mem_firstIds⟩, addAll_isPrefix run.1 later, ?_,
    entriesFor_eq run.1 indices, nodup_entriesFor run.1 indices⟩
  intro index
  refine ⟨?_, isSome_get run.1 index, ?_⟩
  · rw [← hlength, length_entries]
    simp [hasIndex]
  · rw [get_eq_ite, hlength, hnumbers]

end CitationRegistry

end GroundedOps.Agent
