import GroundedOps.Ingestion.ConcurrentIngestion

/-!
# Stored rows are slices of documents

Whatever calls write to the table, and however their transactions interleave, every stored row
holds a slice of a document that one of them was given, at the place the row names.
-/

namespace GroundedOps.Ingestion

open Python Program Transition ChunkTable

variable {F : Type} {dim : ℕ}

section Pieces

variable {enc : Tokenizer} {bytes : ℕ → List UInt8}

/-- All pieces are slices, whatever the sections are. -/
theorem slices_of_chunkDocument (h : ByteTokens enc bytes) {text : Text} {markdown : Bool}
    {target : ℕ} (htarget : 1 ≤ target) {overlap : ℕ} {pieces : List ChunkPiece}
    (hpieces : chunkDocument enc text markdown target overlap = .ok pieces) :
    ∀ piece ∈ pieces, Slices text piece := by
  cases markdown with
  | false =>
    obtain ⟨⟨placed, next⟩, hok, hspans⟩ := tokenChunks_spans h [] text [] 0 htarget overlap
    rw [List.length_nil] at hok
    rw [chunkDocument, if_neg (by simp), hok] at hpieces
    cases hpieces
    simpa using hspans.slices
  | true =>
    obtain ⟨sections, hsections, htext⟩ := splitMarkdownSections_placed text
    obtain ⟨placed, hok, hspans⟩ := sectionChunks_spans h htarget overlap [] sections 0
    rw [chunkDocument, if_pos rfl, hsections] at hpieces
    cases hok.symm.trans hpieces
    simpa [htext] using hspans.slices

end Pieces

/-- The row holds a slice of the document and says where it stands. -/
structure SliceOf (doc : SourceDoc) (r : ChunkRow F) : Prop where
  chunkId : r.chunkId = chunkId doc.docId r.chunkIndex
  docId : r.docId = doc.docId
  sourceType : r.sourceType = doc.sourceType
  title : r.title = doc.title
  start_lt : r.charStart < r.charEnd
  end_le : r.charEnd ≤ doc.text.length
  content : r.content = (doc.text.take r.charEnd).drop r.charStart

theorem SliceOf.of_undated {doc : SourceDoc} {r r' : ChunkRow F} (h : SliceOf doc r)
    (hundated : r.undated = r'.undated) : SliceOf doc r' := by
  obtain ⟨_, _, _, _, _, _, _, _, _, _, _⟩ := r
  obtain ⟨_, _, _, _, _, _, _, _, _, _, _⟩ := r'
  cases hundated
  exact ⟨h.chunkId, h.docId, h.sourceType, h.title, h.start_lt, h.end_le, h.content⟩

theorem DocRows.sliceOf {enc : Tokenizer} {bytes : ℕ → List UInt8} {embeds : Text → List F → Prop}
    {model : Text} {createdAt : ℤ} {doc : SourceDoc} {rs : List (ChunkRow F)}
    (htokens : ByteTokens enc bytes) (h : DocRows enc embeds model createdAt doc rs) :
    ∀ r ∈ rs, SliceOf doc r := by
  obtain ⟨pieces, vectors, hpieces, -, rfl⟩ := h
  have hslices := slices_of_chunkDocument htokens (by decide) hpieces
  intro r hr
  obtain ⟨i, hi⟩ := List.getElem?_of_mem hr
  obtain ⟨piece, v, hpiece, -, rfl⟩ := List.getElem?_zipWith_eq_some.mp hi
  have hslice := hslices piece (List.mem_of_getElem? hpiece)
  exact ⟨rfl, rfl, rfl, rfl, hslice.start_lt, hslice.end_le, hslice.content⟩

/-- The tokenizers of the calls work on bytes. -/
def OnBytes (calls : List (Call F)) : Prop := ∀ call ∈ calls, ∃ bytes, ByteTokens call.enc bytes

/-- The row is a slice of a document of one of the calls. -/
def FromDocument (calls : List (Call F)) (r : ChunkRow F) : Prop :=
  ∃ call ∈ calls, ∃ doc ∈ call.docs, SliceOf doc r

theorem Sourced.fromDocument {calls : List (Call F)} (htokens : OnBytes calls) {docId : Text}
    {i : ℕ} {r : ChunkRow F} (h : Sourced calls docId i r) : FromDocument calls r := by
  obtain ⟨call, hcall, version, ⟨doc, hdoc, -, hrows, -⟩, hundated⟩ := h
  obtain ⟨bytes, hbytes⟩ := htokens call hcall
  obtain ⟨r', hr', hsame⟩ := Option.map_eq_some_iff.mp hundated
  have hslice := hrows.sliceOf hbytes r' (List.mem_of_getElem? hr')
  exact ⟨call, hcall, doc, hdoc, hslice.of_undated hsame⟩

/-- Every committed row is a slice of a document. -/
theorem Sound.fromDocument {s : Writers F dim} (h : Sound s) (htokens : OnBytes s.calls) :
    ∀ r ∈ s.table.rows.values, FromDocument s.calls r := by
  intro r hr
  obtain ⟨d, i, hcell⟩ := h.addressed.mem_values_iff.mp hr
  exact (h.sourced d i r hcell).fromDocument htokens

/-- Calls are never forgotten. -/
theorem calls_subset_of_run {s s' : Writers F dim} {steps : List (Step (Writers F dim) (Act F))}
    (h : Run Steps s steps s') : s.calls ⊆ s'.calls := by
  induction h with
  | nil => exact List.Subset.refl _
  | snoc _ hstep ih =>
    cases hstep with
    | start call rows _ => exact List.Subset.trans ih (List.subset_append_left _ _)
    | commit => exact ih
    | stop => exact ih

theorem FromDocument.mono {calls calls' : List (Call F)} {r : ChunkRow F}
    (h : FromDocument calls r) (hcalls : calls ⊆ calls') : FromDocument calls' r := by
  obtain ⟨call, hcall, hdoc⟩ := h
  exact ⟨call, hcalls hcall, hdoc⟩

end GroundedOps.Ingestion
