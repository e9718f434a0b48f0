import GroundedOps.Ingestion.MarkdownSections
import GroundedOps.Library.Utf8

/-!
# Spans of the chunks

The pieces of a document are numbered from zero and cover every visible character. A
tokenizer may cut inside a character: the prefix lengths that make the spans count a cut
character as a whole one, and grow with the prefix.
-/

namespace GroundedOps.Ingestion

open Python

/-! ### Numbering -/

section Numbering

variable (enc : Tokenizer)

/-- The pieces carry the indices from `first` up to `last`. -/
def Numbered (first last : ℕ) (pieces : List ChunkPiece) : Prop :=
  pieces.map ChunkPiece.chunkIndex = List.range' first pieces.length ∧
    last = first + pieces.length

theorem Numbered.append {first mid last : ℕ} {ps qs : List ChunkPiece}
    (hp : Numbered first mid ps) (hq : Numbered mid last qs) : Numbered first last (ps ++ qs) := by
  obtain ⟨hp, rfl⟩ := hp
  obtain ⟨hq, rfl⟩ := hq
  refine ⟨?_, by rw [List.length_append, Nat.add_assoc]⟩
  rw [List.map_append, hp, hq, List.length_append, List.range'_append_1]

theorem Numbered.nil (first : ℕ) : Numbered first first [] := ⟨rfl, rfl⟩

/-- The piece of the window at token `i`, unless it is blank. -/
def windowPiece (text : Text) (tokens : List ℕ) (offset target i index : ℕ) : List ChunkPiece :=
  let localStart := prefixChars enc tokens i
  let localEnd := prefixChars enc tokens (min (i + target) tokens.length)
  let content := (text.take localEnd).drop localStart
  if (strip content).isEmpty then [] else [⟨index, offset + localStart, offset + localEnd, content⟩]

theorem windowPieces_succ (text : Text) (tokens : List ℕ) (offset target step fuel i index : ℕ) :
    windowPieces enc text tokens offset target step (fuel + 1) i index =
      if tokens.length ≤ i then ([], index)
      else
        let piece := windowPiece enc text tokens offset target i index
        if tokens.length ≤ i + target then (piece, index + piece.length)
        else
          let rest := windowPieces enc text tokens offset target step fuel (i + step)
            (index + piece.length)
          (piece ++ rest.1, rest.2) := by
  simp only [windowPieces, windowPiece, min_eq_right_iff]

theorem windowPiece_numbered (text : Text) (tokens : List ℕ) (offset target i index : ℕ) :
    Numbered index (index + (windowPiece enc text tokens offset target i index).length)
      (windowPiece enc text tokens offset target i index) := by
  refine ⟨?_, rfl⟩
  simp only [windowPiece]
  split_ifs <;> rfl

theorem windowPieces_numbered (text : Text) (tokens : List ℕ)
    (offset target step fuel i index : ℕ) :
    Numbered index (windowPieces enc text tokens offset target step fuel i index).2
      (windowPieces enc text tokens offset target step fuel i index).1 := by
  induction fuel generalizing i index with
  | zero => exact .nil index
  | succ fuel ih =>
    have hpiece := windowPiece_numbered enc text tokens offset target i index
    rw [windowPieces_succ]
    split_ifs with hi hstop
    · exact .nil index
    · exact hpiece
    · exact hpiece.append (ih (i + step) _)

theorem tokenChunks_numbered {text : Text} {offset index target overlap : ℕ}
    {r : List ChunkPiece × ℕ} (h : tokenChunks enc text offset index target overlap = .ok r) :
    Numbered index r.2 r.1 := by
  rw [tokenChunks, bind_eq_ok] at h
  obtain ⟨tokens, -, hr⟩ := h
  cases hr
  exact windowPieces_numbered enc _ _ _ _ _ _ _ _

theorem sectionChunks_numbered {target overlap : ℕ} {sections : List (Text × ℕ)} {index : ℕ}
    {pieces : List ChunkPiece} (h : sectionChunks enc target overlap sections index = .ok pieces) :
    Numbered index (index + pieces.length) pieces := by
  induction sections generalizing index pieces with
  | nil =>
    cases h
    exact .nil index
  | cons s sections ih =>
    rw [sectionChunks, bind_eq_ok] at h
    obtain ⟨⟨sub, next⟩, hsub, h⟩ := h
    dsimp only at h
    rw [bind_eq_ok] at h
    obtain ⟨rest, hrest, h⟩ := h
    cases h
    have hall : Numbered index (next + rest.length) (sub ++ rest) :=
      (tokenChunks_numbered enc hsub).append (ih hrest)
    rwa [hall.2] at hall

/-- The pieces of a document are numbered from zero, whatever the tokenizer does. -/
theorem chunkDocument_numbered {text : Text} {markdown : Bool} {target overlap : ℕ}
    {pieces : List ChunkPiece} (h : chunkDocument enc text markdown target overlap = .ok pieces) :
    pieces.map ChunkPiece.chunkIndex = List.range pieces.length := by
  rw [List.range_eq_range']
  rw [chunkDocument] at h
  split_ifs at h with hmarkdown
  · exact (sectionChunks_numbered enc h).1
  · rw [bind_eq_ok] at h
    obtain ⟨⟨pieces, next⟩, hsub, h⟩ := h
    cases h
    exact (tokenChunks_numbered enc hsub).1

end Numbering

/-! ### Spans -/

/-- The piece is a visible slice of the text. -/
structure Slices (text : Text) (piece : ChunkPiece) : Prop where
  start_lt : piece.charStart < piece.charEnd
  end_le : piece.charEnd ≤ text.length
  content : piece.content = (text.take piece.charEnd).drop piece.charStart
  visible : ∃ c ∈ piece.content, isSpace c = false

/-- The pieces cover what is visible of the text from `lo` to `hi`. -/
structure Spans (text : Text) (lo hi : ℕ) (pieces : List ChunkPiece) : Prop where
  slices : ∀ piece ∈ pieces, Slices text piece
  within : ∀ piece ∈ pieces, lo ≤ piece.charStart ∧ piece.charEnd ≤ hi
  sorted : pieces.Pairwise fun p q => p.charStart ≤ q.charStart
  covers : ∀ x c, text[x]? = some c → isSpace c = false → lo ≤ x → x < hi →
    ∃ piece ∈ pieces, piece.charStart ≤ x ∧ x < piece.charEnd

namespace Spans

variable {text : Text} {lo mid mid' hi : ℕ} {ps qs : List ChunkPiece}

theorem nil (hle : hi ≤ lo) : Spans text lo hi [] where
  slices := by simp
  within := by simp
  sorted := .nil
  covers := by
    intro x c hx hc hlo hhi
    omega

/-- The second part may start inside the first, but behind the starts of its pieces. -/
theorem append (hp : Spans text lo mid ps) (hq : Spans text mid' hi qs) (hlo : lo ≤ mid')
    (hle : mid' ≤ mid) (hhi : mid ≤ hi) (hstart : ∀ p ∈ ps, p.charStart ≤ mid') :
    Spans text lo hi (ps ++ qs) where
  slices := List.forall_mem_append.mpr ⟨hp.slices, hq.slices⟩
  within := by
    rw [List.forall_mem_append]
    constructor
    · intro p hmem
      exact ⟨(hp.within p hmem).1, (hp.within p hmem).2.trans hhi⟩
    · intro q hmem
      exact ⟨hlo.trans (hq.within q hmem).1, (hq.within q hmem).2⟩
  sorted := by
    apply List.pairwise_append.mpr
    refine ⟨hp.sorted, hq.sorted, ?_⟩
    intro p hpmem q hqmem
    exact (hstart p hpmem).trans (hq.within q hqmem).1
  covers := by
    intro x c hx hc hlox hxhi
    by_cases hmid : x < mid
    · obtain ⟨p, hmem, hspan⟩ := hp.covers x c hx hc hlox hmid
      exact ⟨p, List.mem_append_left _ hmem, hspan⟩
    · obtain ⟨q, hmem, hspan⟩ := hq.covers x c hx hc (by omega) hxhi
      exact ⟨q, List.mem_append_right _ hmem, hspan⟩

end Spans

theorem strip_eq_nil {s : Text} : strip s = [] ↔ ∀ c ∈ s, isSpace c = true := by
  rw [strip, stripBy, List.rdropWhile_eq_nil_iff]
  constructor
  · intro h c hc
    rw [← List.takeWhile_append_dropWhile (p := isSpace) (l := s)] at hc
    rcases List.mem_append.mp hc with hc | hc
    · exact List.mem_takeWhile_imp hc
    · exact h c hc
  · intro h c hc
    exact h c ((List.dropWhile_suffix isSpace).subset hc)

section Windows

variable {enc : Tokenizer} {pre sec post : Text} {tokens : List ℕ}

/-- What the prefix lengths of an encoded text are used for. -/
structure Measures (enc : Tokenizer) (text : Text) (tokens : List ℕ) : Prop where
  mono : Monotone (prefixChars enc tokens)
  total : prefixChars enc tokens tokens.length = text.length

variable (pre post)

theorem slice_shift {a b : ℕ} (hb : b ≤ sec.length) :
    ((pre ++ sec ++ post).take (pre.length + b)).drop (pre.length + a) =
      (sec.take b).drop a := by
  rw [List.append_assoc, List.take_length_add_append, List.take_append_of_le_length hb,
    List.drop_length_add_append]

theorem mem_slice {s : Text} {a b x : ℕ} {c : Char} (hx : s[x]? = some c) (ha : a ≤ x)
    (hb : x < b) : c ∈ (s.take b).drop a := by
  apply List.mem_of_getElem? (i := x - a)
  rw [List.getElem?_drop, Nat.add_sub_cancel' ha, List.getElem?_take_of_lt hb, hx]

theorem windowPiece_spans (h : Measures enc sec tokens) (target i index : ℕ)
    (hi : i ≤ tokens.length) :
    Spans (pre ++ sec ++ post) (pre.length + prefixChars enc tokens i)
      (pre.length + prefixChars enc tokens (min (i + target) tokens.length))
      (windowPiece enc sec tokens pre.length target i index) := by
  have hab : prefixChars enc tokens i ≤ prefixChars enc tokens (min (i + target) tokens.length) :=
    h.mono (by omega)
  have hb : prefixChars enc tokens (min (i + target) tokens.length) ≤ sec.length := by
    rw [← h.total]
    exact h.mono (min_le_right _ _)
  rw [windowPiece]
  generalize prefixChars enc tokens i = a at hab ⊢
  generalize prefixChars enc tokens (min (i + target) tokens.length) = b at hab hb ⊢
  have hslice := slice_shift pre post (a := a) hb
  split_ifs with hblank
  · have hspace := strip_eq_nil.mp (List.isEmpty_iff.mp hblank)
    refine ⟨by simp, by simp, .nil, ?_⟩
    intro x c hx hc hlo hhi
    have hmem := mem_slice hx hlo hhi
    rw [hslice] at hmem
    rw [hspace c hmem] at hc
    cases hc
  · have hvisible : ∃ c ∈ (sec.take b).drop a, isSpace c = false := by
      by_contra hnone
      apply hblank
      rw [List.isEmpty_iff, strip_eq_nil]
      intro c hc
      by_contra hspace
      exact hnone ⟨c, hc, Bool.eq_false_iff.mpr hspace⟩
    have hlt : a < b := by
      obtain ⟨c, hc, -⟩ := hvisible
      have hpos := List.length_pos_of_mem hc
      rw [List.length_drop, List.length_take] at hpos
      omega
    refine ⟨?_, by simp, List.pairwise_singleton _ _, ?_⟩
    · intro piece hmem
      obtain rfl := List.mem_singleton.mp hmem
      refine ⟨Nat.add_lt_add_left hlt _, ?_, hslice.symm, hvisible⟩
      simp only [List.length_append]
      omega
    · intro x c hx hc hlo hhi
      exact ⟨_, List.mem_singleton_self _, hlo, hhi⟩

theorem charStart_of_mem_windowPiece {offset target i index : ℕ} {piece : ChunkPiece}
    (h : piece ∈ windowPiece enc sec tokens offset target i index) :
    piece.charStart = offset + prefixChars enc tokens i := by
  rw [windowPiece] at h
  split_ifs at h with hblank
  · cases h
  · rw [List.mem_singleton.mp h]

theorem windowPieces_spans (h : Measures enc sec tokens) {target step : ℕ} (hstep : 0 < step)
    (hle : step ≤ target) {fuel i : ℕ} (hfuel : tokens.length ≤ i + fuel) (hi : i ≤ tokens.length)
    (index : ℕ) :
    Spans (pre ++ sec ++ post) (pre.length + prefixChars enc tokens i) (pre.length + sec.length)
      (windowPieces enc sec tokens pre.length target step fuel i index).1 := by
  induction fuel generalizing i index with
  | zero =>
    obtain rfl : i = tokens.length := by omega
    exact .nil (by rw [h.total])
  | succ fuel ih =>
    have hpiece := windowPiece_spans pre post h target i index hi
    rw [windowPieces_succ]
    split_ifs with hend hstop
    · obtain rfl : i = tokens.length := by omega
      exact .nil (by rw [h.total])
    · rw [min_eq_right hstop, h.total] at hpiece
      exact hpiece
    · rw [min_eq_left (by omega)] at hpiece
      have hrest := ih (i := i + step) (by omega) (by omega)
        (index + (windowPiece enc sec tokens pre.length target i index).length)
      have hnext : prefixChars enc tokens i ≤ prefixChars enc tokens (i + step) :=
        h.mono (by omega)
      have hover : prefixChars enc tokens (i + step) ≤ prefixChars enc tokens (i + target) :=
        h.mono (by omega)
      have hlast : prefixChars enc tokens (i + target) ≤ sec.length := by
        rw [← h.total]
        exact h.mono (by omega)
      refine hpiece.append hrest (by omega) (by omega) (by omega) ?_
      intro p hp
      rw [charStart_of_mem_windowPiece hp]
      exact Nat.add_le_add_left hnext _

end Windows

/-! ### Documents -/

/-- The tokens are bytes of the text, which may cut characters. Decoding puts one
replacement character for a cut one at the end. -/
structure ByteTokens (enc : Tokenizer) (bytes : ℕ → List UInt8) : Prop where
  encode : ∀ text, ∃ tokens, enc.encode text = .ok tokens ∧
    tokens.flatMap bytes = Utf8.encode text
  decode : ∀ tokens s, tokens.flatMap bytes = Utf8.encode s → enc.decode tokens = s
  decode_cut : ∀ tokens s c part, Utf8.Cut c part →
    tokens.flatMap bytes = Utf8.encode s ++ part → enc.decode tokens = s ++ ['\uFFFD']

section Documents

variable {enc : Tokenizer} {bytes : ℕ → List UInt8}

theorem ByteTokens.length_decode_take (h : ByteTokens enc bytes) {text : Text} {tokens : List ℕ}
    (htokens : tokens.flatMap bytes = Utf8.encode text) (k : ℕ) :
    (enc.decode (tokens.take k)).length =
      Utf8.touched text ((tokens.take k).flatMap bytes).length := by
  have hinit : (tokens.take k).flatMap bytes <+: Utf8.encode text := by
    rw [← htokens]
    exact (List.take_prefix k tokens).flatMap bytes
  obtain ⟨whole, ⟨hwhole, hlen⟩ | ⟨c, part, hcut, hpart, hlen⟩⟩ := Utf8.exists_whole hinit
  · rw [hlen, h.decode _ _ hwhole]
  · rw [hlen, h.decode_cut _ _ _ _ hcut hpart, List.length_append, List.length_singleton]

theorem ByteTokens.measures (h : ByteTokens enc bytes) {text : Text} {tokens : List ℕ}
    (htokens : tokens.flatMap bytes = Utf8.encode text) : Measures enc text tokens := by
  have hchars : ∀ k, prefixChars enc tokens k =
      Utf8.touched text ((tokens.take k).flatMap bytes).length := by
    intro k
    rw [← h.length_decode_take htokens, prefixChars]
    split_ifs with hk
    · rw [hk, List.take_zero, h.decode [] [] rfl, List.length_nil]
    · rfl
  constructor
  · intro k l hkl
    rw [hchars, hchars]
    apply Utf8.touched_mono
    exact ((List.take_prefix_take_left hkl).flatMap bytes).length_le
  · rw [hchars, List.take_length, htokens, Utf8.touched_length]

theorem tokenChunks_spans (h : ByteTokens enc bytes) (pre sec post : Text) (index : ℕ)
    {target : ℕ} (htarget : 1 ≤ target) (overlap : ℕ) :
    ∃ r, tokenChunks enc sec pre.length index target overlap = .ok r ∧
      Spans (pre ++ sec ++ post) pre.length (pre.length + sec.length) r.1 := by
  obtain ⟨tokens, hencode, htokens⟩ := h.encode sec
  refine ⟨_, by rw [tokenChunks, hencode]; rfl, ?_⟩
  have hstep : 0 < max 1 (target - overlap) := by omega
  have hle : max 1 (target - overlap) ≤ target := by omega
  have hfuel : tokens.length ≤ 0 + tokens.length := by omega
  have hspans := windowPieces_spans pre post (h.measures htokens) hstep hle hfuel
    (Nat.zero_le _) index
  rwa [prefixChars, if_pos rfl, Nat.add_zero] at hspans

theorem sectionChunks_spans (h : ByteTokens enc bytes) {target : ℕ} (htarget : 1 ≤ target)
    (overlap : ℕ) (pre : Text) (sections : List Text) (index : ℕ) :
    ∃ pieces, sectionChunks enc target overlap (placed pre.length sections) index = .ok pieces ∧
      Spans (pre ++ sections.flatten) pre.length (pre.length + sections.flatten.length) pieces := by
  induction sections generalizing pre index with
  | nil => exact ⟨[], rfl, .nil le_rfl⟩
  | cons sec sections ih =>
    obtain ⟨⟨sub, next⟩, hsub, hspans⟩ :=
      tokenChunks_spans h pre sec sections.flatten index htarget overlap
    obtain ⟨rest, hrest, hspans'⟩ := ih (pre ++ sec) next
    rw [List.length_append] at hrest hspans'
    refine ⟨sub ++ rest, ?_, ?_⟩
    · rw [placed, sectionChunks, hsub, ok_bind]
      dsimp only
      rw [hrest]
      rfl
    · rw [List.flatten_cons, List.length_append, ← List.append_assoc, ← Nat.add_assoc]
      refine hspans.append hspans' (by omega) le_rfl (by omega) ?_
      intro p hp
      exact (hspans.slices p hp).start_lt.le.trans (hspans.within p hp).2

/-- Chunking loses nothing that is visible, and its spans are exact. -/
theorem chunkDocument_spans (h : ByteTokens enc bytes) (text : Text) (markdown : Bool)
    {target : ℕ} (htarget : 1 ≤ target) (overlap : ℕ) :
    ∃ pieces, chunkDocument enc text markdown target overlap = .ok pieces ∧
      pieces.map ChunkPiece.chunkIndex = List.range pieces.length ∧
      (∀ piece ∈ pieces, Slices text piece) ∧
      (pieces.Pairwise fun p q => p.charStart ≤ q.charStart) ∧
      ∀ x c, text[x]? = some c → isSpace c = false →
        ∃ piece ∈ pieces, piece.charStart ≤ x ∧ x < piece.charEnd := by
  have hpieces : ∃ pieces, chunkDocument enc text markdown target overlap = .ok pieces ∧
      Spans text 0 text.length pieces := by
    cases markdown with
    | false =>
      obtain ⟨⟨pieces, next⟩, hok, hspans⟩ := tokenChunks_spans h [] text [] 0 htarget overlap
      refine ⟨pieces, ?_, by simpa using hspans⟩
      rw [List.length_nil] at hok
      rw [chunkDocument, if_neg (by simp), hok]
      rfl
    | true =>
      obtain ⟨sections, hsections, htext⟩ := splitMarkdownSections_placed text
      obtain ⟨pieces, hok, hspans⟩ := sectionChunks_spans h htarget overlap [] sections 0
      refine ⟨pieces, ?_, by simpa [htext] using hspans⟩
      rw [chunkDocument, if_pos rfl, hsections]
      exact hok
  obtain ⟨pieces, hok, hspans⟩ := hpieces
  refine ⟨pieces, hok, chunkDocument_numbered enc hok, hspans.slices, hspans.sorted, ?_⟩
  intro x c hx hc
  obtain ⟨hlt, -⟩ := List.getElem?_eq_some_iff.mp hx
  exact hspans.covers x c hx hc (Nat.zero_le _) hlt

end Documents

/-- The tokenizer whose tokens are the single bytes. -/
def byteTokenizer : Tokenizer where
  encode text := .ok ((Utf8.encode text).map UInt8.toNat)
  decode tokens := Utf8.decode tokens.length (tokens.map UInt8.ofNat)

theorem byteTokenizer_byteTokens : ByteTokens byteTokenizer fun t => [UInt8.ofNat t] where
  encode text := by
    refine ⟨_, rfl, ?_⟩
    rw [← List.map_eq_flatMap, List.map_map]
    simp [Function.comp_def]
  decode tokens s h := by
    rw [← List.map_eq_flatMap] at h
    have hlen : s.length ≤ tokens.length := by
      rw [← List.length_map (f := UInt8.ofNat), h]
      exact Utf8.length_le_encode s
    change Utf8.decode tokens.length (tokens.map UInt8.ofNat) = s
    rw [h, Utf8.decode_encode hlen]
  decode_cut tokens s c part hcut h := by
    rw [← List.map_eq_flatMap] at h
    have hlen : s.length ≤ tokens.length := by
      rw [← List.length_map (f := UInt8.ofNat), h, List.length_append]
      exact Nat.le_add_right_of_le (Utf8.length_le_encode s)
    change Utf8.decode tokens.length (tokens.map UInt8.ofNat) = s ++ ['\uFFFD']
    rw [h, Utf8.decode_cut hcut hlen]

/-- Windows of two bytes that overlap in one, over characters of two, one and three bytes. -/
example : (chunkDocument byteTokenizer "é €".toList false 2 1).toOption.map
    (·.map fun p => (p.chunkIndex, p.charStart, p.charEnd)) =
      some [(0, 0, 1), (1, 1, 3), (2, 2, 3)] := by decide

theorem chunkDocument_spans_cut :
    ∃ pieces, chunkDocument byteTokenizer "é €".toList false 2 1 = .ok pieces ∧
      pieces.map ChunkPiece.chunkIndex = List.range pieces.length ∧
      (∀ piece ∈ pieces, Slices "é €".toList piece) ∧
      (pieces.Pairwise fun p q => p.charStart ≤ q.charStart) ∧
      ∀ x c, "é €".toList[x]? = some c → isSpace c = false →
        ∃ piece ∈ pieces, piece.charStart ≤ x ∧ x < piece.charEnd :=
  chunkDocument_spans byteTokenizer_byteTokens _ _ (by decide) _

end GroundedOps.Ingestion
