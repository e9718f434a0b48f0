import GroundedOps.Ingestion.ChunkSpans
import GroundedOps.Ingestion.Indexer

/-!
# Literals of special tokens

A tokenizer has a few literals, such as `<|endoftext|>`, that it does not encode as ordinary
text: with its default arguments it raises if one of them occurs. No literal goes over the end
of a line, so splitting a document into sections does not break one up.
-/

namespace GroundedOps.Ingestion

open Python

structure SpecialTokens where
  literals : List Text
  nonempty : ∀ s ∈ literals, s ≠ []
  oneLine : ∀ s ∈ literals, ∀ c ∈ s, c.toNat ∉ lineEnds

def SpecialTokens.OccursIn (special : SpecialTokens) (text : Text) : Prop :=
  ∃ s ∈ special.literals, s <:+: text

/-- How `encode` behaves with its default arguments. -/
structure Tiktoken (special : SpecialTokens) (encode : Text → Except Exn (List ℕ)) : Prop where
  rejects : ∀ text, special.OccursIn text → encode text = .error .valueError
  encodes : ∀ text, ¬ special.OccursIn text → ∃ tokens, encode text = .ok tokens

/-! ### Lines and sections -/

theorem infix_of_cons {s t : Text} {c : Char} (hne : s ≠ []) (hc : c ∉ s) (h : s <:+: c :: t) :
    s <:+: t := by
  rcases List.infix_cons_iff.mp h with hinit | hinside
  · obtain ⟨d, s, rfl⟩ := List.exists_cons_of_ne_nil hne
    obtain ⟨rfl, -⟩ := List.cons_prefix_cons.mp hinit
    exact absurd (List.mem_cons_self) hc
  · exact hinside

/-- A text without line ends at the start of another one is in its first line. -/
theorem prefix_first_line {s t : Text} (hne : s ≠ []) (hs : ∀ c ∈ s, c.toNat ∉ lineEnds)
    (h : s <+: t) : ∃ line lines, splitlines t = line :: lines ∧ s <+: line := by
  induction t using splitlines.induct generalizing s with
  | case1 => exact absurd (List.prefix_nil.mp h) hne
  | case2 t ih =>
    obtain ⟨d, s, rfl⟩ := List.exists_cons_of_ne_nil hne
    obtain ⟨rfl, -⟩ := List.cons_prefix_cons.mp h
    exact absurd (by decide) (hs '\r' List.mem_cons_self)
  | case3 c t hcr hend ih =>
    obtain ⟨d, s, rfl⟩ := List.exists_cons_of_ne_nil hne
    obtain ⟨rfl, -⟩ := List.cons_prefix_cons.mp h
    exact absurd (List.contains_iff_mem.mp hend) (hs d List.mem_cons_self)
  | case4 c t hcr hend ih =>
    obtain ⟨d, s, rfl⟩ := List.exists_cons_of_ne_nil hne
    obtain ⟨rfl, hrest⟩ := List.cons_prefix_cons.mp h
    rw [splitlines, if_neg hend]
    · cases hlines : splitlines t with
      | nil =>
        have hflat := flatten_splitlines t
        rw [hlines] at hflat
        subst hflat
        exact ⟨[d], [], rfl, by simpa using hrest⟩
      | cons line lines =>
        refine ⟨d :: line, lines, rfl, List.cons_prefix_cons.mpr ⟨rfl, ?_⟩⟩
        by_cases hempty : s = []
        · subst hempty
          exact List.nil_prefix
        · obtain ⟨line', lines', hsame, hinit⟩ :=
            ih hempty (fun c hc => hs c (List.mem_cons_of_mem _ hc)) hrest
          rw [hlines] at hsame
          cases hsame
          exact hinit
    · exact hcr

theorem exists_line {s t : Text} (hne : s ≠ []) (hs : ∀ c ∈ s, c.toNat ∉ lineEnds)
    (h : s <:+: t) : ∃ line ∈ splitlines t, s <:+: line := by
  induction t using splitlines.induct with
  | case1 => exact absurd (List.infix_nil.mp h) hne
  | case2 t ih =>
    have hcr : '\r' ∉ s := fun hmem => hs _ hmem (by decide)
    have hlf : '\n' ∉ s := fun hmem => hs _ hmem (by decide)
    obtain ⟨line, hline, hinside⟩ := ih (infix_of_cons hne hlf (infix_of_cons hne hcr h))
    rw [splitlines]
    exact ⟨line, List.mem_cons_of_mem _ hline, hinside⟩
  | case3 c t hcr hend ih =>
    have hc : c ∉ s := fun hmem => hs _ hmem (List.contains_iff_mem.mp hend)
    obtain ⟨line, hline, hinside⟩ := ih (infix_of_cons hne hc h)
    rw [splitlines, if_pos hend]
    · exact ⟨line, List.mem_cons_of_mem _ hline, hinside⟩
    · exact hcr
  | case4 c t hcr hend ih =>
    rcases List.infix_cons_iff.mp h with hinit | hinside
    · obtain ⟨line, lines, hlines, hline⟩ := prefix_first_line hne hs hinit
      exact ⟨line, hlines ▸ List.mem_cons_self, hline.isInfix⟩
    · obtain ⟨line, hline, hinside⟩ := ih hinside
      rw [splitlines, if_neg hend]
      · cases hlines : splitlines t with
        | nil =>
          rw [hlines] at hline
          cases hline
        | cons first lines =>
          rw [hlines] at hline
          rcases List.mem_cons.mp hline with rfl | hline
          · exact ⟨c :: line, List.mem_cons_self, hinside.trans (List.suffix_cons _ _).isInfix⟩
          · exact ⟨line, List.mem_cons_of_mem _ hline, hinside⟩
      · exact hcr

/-- The lines that have been read are in the open section or in a closed one. -/
def Kept (s : Sections) (lines : List Text) : Prop :=
  ∀ line ∈ lines, line ∈ s.cur ∨ ∃ p ∈ s.sections, line <:+: p.1

theorem Kept.push {s : Sections} {lines : List Text} (h : Kept s lines) (line : Text) :
    Kept (s.push line) (lines ++ [line]) := by
  intro l hl
  rcases List.mem_append.mp hl with hl | hl
  · unfold Sections.push
    by_cases hsplit : isHeader line && !s.cur.isEmpty
    · rw [if_pos hsplit]
      right
      rcases h l hl with hcur | ⟨p, hp, hinside⟩
      · exact ⟨(s.cur.flatten, s.sectionOffset), by simp, List.infix_of_mem_flatten hcur⟩
      · exact ⟨p, List.mem_append_left _ hp, hinside⟩
    · rw [if_neg hsplit]
      rcases h l hl with hcur | hclosed
      · exact Or.inl (List.mem_append_left _ hcur)
      · exact Or.inr hclosed
  · left
    rw [List.mem_singleton] at hl
    subst hl
    exact List.mem_append_right _ (List.mem_singleton_self _)

theorem kept_foldl (lines : List Text) : Kept (lines.foldl Sections.push {}) lines := by
  induction lines using List.reverseRecOn with
  | nil => exact fun _ h => absurd h List.not_mem_nil
  | append_singleton lines line ih =>
    rw [List.foldl_concat]
    exact ih.push line

/-- Every line of a document is in one of its sections. -/
theorem exists_section {text line : Text} (h : line ∈ splitlines text) :
    ∃ p ∈ splitMarkdownSections text, line <:+: p.1 := by
  unfold splitMarkdownSections
  dsimp only
  rcases kept_foldl (splitlines text) line h with hcur | ⟨p, hp, hinside⟩
  · rw [if_neg (by simpa using List.ne_nil_of_mem hcur)]
    exact ⟨_, List.mem_append_right _ (List.mem_singleton_self _), List.infix_of_mem_flatten hcur⟩
  · split_ifs
    · exact ⟨p, hp, hinside⟩
    · exact ⟨p, List.mem_append_left _ hp, hinside⟩

theorem mem_of_mem_placed {offset : ℕ} {sections : List Text} {p : Text × ℕ}
    (h : p ∈ placed offset sections) : p.1 ∈ sections := by
  induction sections generalizing offset with
  | nil => cases h
  | cons s sections ih =>
    rcases List.mem_cons.mp h with rfl | h
    · exact List.mem_cons_self
    · exact List.mem_cons_of_mem _ (ih h)

theorem occursIn_iff_section {special : SpecialTokens} {text : Text} :
    special.OccursIn text ↔ ∃ p ∈ splitMarkdownSections text, special.OccursIn p.1 := by
  constructor
  · rintro ⟨s, hs, hinside⟩
    obtain ⟨line, hline, hin⟩ := exists_line (special.nonempty s hs) (special.oneLine s hs) hinside
    obtain ⟨p, hp, hsection⟩ := exists_section hline
    exact ⟨p, hp, s, hs, hin.trans hsection⟩
  · rintro ⟨p, hp, s, hs, hinside⟩
    obtain ⟨sections, hplaced, hflat⟩ := splitMarkdownSections_placed text
    rw [hplaced] at hp
    refine ⟨s, hs, hinside.trans ?_⟩
    rw [← hflat]
    exact List.infix_of_mem_flatten (mem_of_mem_placed hp)

/-! ### Documents and batches -/

section Chunks

theorem sectionChunks_cons {enc : Tokenizer} {text : Text} {offset index target overlap : ℕ}
    {r : List ChunkPiece × ℕ} (h : tokenChunks enc text offset index target overlap = .ok r)
    (sections : List (Text × ℕ)) :
    sectionChunks enc target overlap ((text, offset) :: sections) index =
      sectionChunks enc target overlap sections r.2 >>= fun rest => .ok (r.1 ++ rest) := by
  rw [sectionChunks, h]
  rfl

variable {special : SpecialTokens} {enc : Tokenizer} (h : Tiktoken special enc.encode)
include h

theorem tokenChunks_ok {text : Text} (htext : ¬ special.OccursIn text)
    (offset index target overlap : ℕ) :
    ∃ r, tokenChunks enc text offset index target overlap = .ok r := by
  obtain ⟨tokens, htokens⟩ := h.encodes text htext
  rw [tokenChunks, htokens]
  exact ⟨_, rfl⟩

theorem sectionChunks_of_occursIn {sections : List (Text × ℕ)} {target overlap : ℕ}
    (hsections : ∃ p ∈ sections, special.OccursIn p.1) (index : ℕ) :
    sectionChunks enc target overlap sections index = .error .valueError := by
  induction sections generalizing index with
  | nil =>
    obtain ⟨p, hp, -⟩ := hsections
    cases hp
  | cons p sections ih =>
    obtain ⟨text, offset⟩ := p
    by_cases hfirst : special.OccursIn text
    · rw [sectionChunks, tokenChunks, h.rejects text hfirst]
      rfl
    · have hrest : ∃ p ∈ sections, special.OccursIn p.1 := by
        obtain ⟨p, hp, hoccurs⟩ := hsections
        rcases List.mem_cons.mp hp with rfl | hp
        · exact absurd hoccurs hfirst
        · exact ⟨p, hp, hoccurs⟩
      obtain ⟨r, hr⟩ := tokenChunks_ok h hfirst offset index target overlap
      rw [sectionChunks_cons hr, ih hrest]
      rfl

theorem sectionChunks_ok {sections : List (Text × ℕ)} (target overlap : ℕ)
    (hsections : ∀ p ∈ sections, ¬ special.OccursIn p.1) (index : ℕ) :
    ∃ pieces, sectionChunks enc target overlap sections index = .ok pieces := by
  induction sections generalizing index with
  | nil => exact ⟨[], rfl⟩
  | cons p sections ih =>
    obtain ⟨text, offset⟩ := p
    obtain ⟨hfirst, hrest⟩ := List.forall_mem_cons.mp hsections
    obtain ⟨r, hr⟩ := tokenChunks_ok h hfirst offset index target overlap
    obtain ⟨pieces, hpieces⟩ := ih hrest r.2
    rw [sectionChunks_cons hr, hpieces]
    exact ⟨r.1 ++ pieces, rfl⟩

theorem chunkDocument_of_occursIn {text : Text} (htext : special.OccursIn text) (markdown : Bool)
    (target overlap : ℕ) :
    chunkDocument enc text markdown target overlap = .error .valueError := by
  cases markdown with
  | true => exact sectionChunks_of_occursIn h (occursIn_iff_section.mp htext) 0
  | false =>
    rw [chunkDocument, if_neg Bool.false_ne_true, tokenChunks, h.rejects text htext]
    rfl

theorem chunkDocument_ok {text : Text} (htext : ¬ special.OccursIn text) (markdown : Bool)
    (target overlap : ℕ) : ∃ pieces, chunkDocument enc text markdown target overlap = .ok pieces := by
  cases markdown with
  | true =>
    apply sectionChunks_ok h
    intro p hp hoccurs
    exact htext (occursIn_iff_section.mpr ⟨p, hp, hoccurs⟩)
  | false =>
    obtain ⟨r, hr⟩ := tokenChunks_ok h htext 0 0 target overlap
    rw [chunkDocument, if_neg Bool.false_ne_true, hr]
    exact ⟨r.1, rfl⟩

theorem chunkDocument_ok_iff (text : Text) (markdown : Bool) (target overlap : ℕ) :
    (∃ pieces, chunkDocument enc text markdown target overlap = .ok pieces) ↔
      ¬ special.OccursIn text := by
  constructor
  · rintro ⟨pieces, hpieces⟩ hoccurs
    rw [chunkDocument_of_occursIn h hoccurs] at hpieces
    cases hpieces
  · intro htext
    exact chunkDocument_ok h htext markdown target overlap

theorem docPieces_of_occursIn {docs : List SourceDoc}
    (hdocs : ∃ doc ∈ docs, special.OccursIn doc.text) :
    docPieces enc docs = .error .valueError := by
  induction docs with
  | nil =>
    obtain ⟨doc, hdoc, -⟩ := hdocs
    cases hdoc
  | cons doc docs ih =>
    rw [docPieces]
    by_cases hfirst : special.OccursIn doc.text
    · rw [chunkDocument_of_occursIn h hfirst]
      rfl
    · have hrest : ∃ doc ∈ docs, special.OccursIn doc.text := by
        obtain ⟨d, hd, hoccurs⟩ := hdocs
        rcases List.mem_cons.mp hd with rfl | hd
        · exact absurd hoccurs hfirst
        · exact ⟨d, hd, hoccurs⟩
      obtain ⟨pieces, hpieces⟩ := chunkDocument_ok h hfirst doc.markdown targetTokens overlapTokens
      rw [hpieces, ih hrest]
      rfl

theorem docPieces_ok_iff (docs : List SourceDoc) :
    (∃ pairs, docPieces enc docs = .ok pairs) ↔ ∀ doc ∈ docs, ¬ special.OccursIn doc.text := by
  induction docs with
  | nil => exact iff_of_true ⟨[], rfl⟩ fun _ h => absurd h List.not_mem_nil
  | cons doc docs ih =>
    rw [docPieces, List.forall_mem_cons, ← ih]
    apply exists_bind_ok_iff (chunkDocument_ok_iff h _ _ _ _)
    intro pieces
    rw [exists_bind_ok_iff Iff.rfl fun _ => exists_pure_ok _, and_true]

/-- One document with a literal, and nothing of the batch is stored. -/
theorem ingestDocuments_of_occursIn {F : Type} {dim : ℕ} {docs : List SourceDoc}
    (hdocs : ∃ doc ∈ docs, special.OccursIn doc.text) (provider : EmbeddingProvider F)
    (batchSize : ℕ) (createdAt : ℤ) (t : ChunkTable F dim) :
    ingestDocuments enc provider batchSize createdAt docs t = .error .valueError t := by
  have hrows : chunkRows enc provider batchSize createdAt docs = .error .valueError := by
    rw [chunkRows, docPieces_of_occursIn h hdocs]
    rfl
  unfold ingestDocuments
  rw [hrows]
  rfl

end Chunks

end GroundedOps.Ingestion
