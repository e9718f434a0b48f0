import GroundedOps.Ingestion.ChunkSpans

/-!
# Header boundaries

Every piece of a Markdown document is a slice of one section, whatever the tokenizer does, and
no header line starts inside a section. So no piece goes over the start of a header line.
-/

namespace GroundedOps.Ingestion

open Python

/-! ### Pieces of a section -/

/-- The content of the piece is the slice of the section at its recorded start. -/
structure InSection (sec : Text × ℕ) (piece : ChunkPiece) : Prop where
  start_le : sec.2 ≤ piece.charStart
  end_le : piece.charStart + piece.content.length ≤ sec.2 + sec.1.length
  content : piece.content =
    (sec.1.drop (piece.charStart - sec.2)).take piece.content.length

section Pieces

variable (enc : Tokenizer)

theorem windowPiece_inSection {text : Text} {tokens : List ℕ} {offset target i index : ℕ}
    {piece : ChunkPiece} (h : piece ∈ windowPiece enc text tokens offset target i index) :
    InSection (text, offset) piece := by
  rw [windowPiece] at h
  generalize prefixChars enc tokens i = a at h
  generalize prefixChars enc tokens (min (i + target) tokens.length) = b at h
  split_ifs at h with hblank
  · cases h
  · obtain rfl := List.mem_singleton.mp h
    have hne : (text.take b).drop a ≠ [] := by
      intro hnil
      rw [hnil] at hblank
      exact hblank rfl
    have hpos := List.length_pos_iff.mpr hne
    rw [List.length_drop, List.length_take] at hpos
    constructor
    · exact Nat.le_add_right offset a
    · simp only [List.length_drop, List.length_take]
      omega
    · rw [Nat.add_sub_cancel_left, List.length_drop, List.length_take, List.drop_take,
        List.take_eq_take_iff, List.length_drop]
      omega

theorem windowPieces_inSection {text : Text} {tokens : List ℕ}
    {offset target step fuel i index : ℕ} {piece : ChunkPiece}
    (h : piece ∈ (windowPieces enc text tokens offset target step fuel i index).1) :
    InSection (text, offset) piece := by
  induction fuel generalizing i index with
  | zero => cases h
  | succ fuel ih =>
    rw [windowPieces_succ] at h
    split_ifs at h with hend hstop
    · cases h
    · exact windowPiece_inSection enc h
    · rcases List.mem_append.mp h with h | h
      · exact windowPiece_inSection enc h
      · exact ih h

theorem sectionChunks_inSection {target overlap : ℕ} {sections : List (Text × ℕ)} {index : ℕ}
    {pieces : List ChunkPiece} (h : sectionChunks enc target overlap sections index = .ok pieces)
    {piece : ChunkPiece} (hpiece : piece ∈ pieces) : ∃ s ∈ sections, InSection s piece := by
  induction sections generalizing index pieces with
  | nil =>
    cases h
    cases hpiece
  | cons s sections ih =>
    rw [sectionChunks, bind_eq_ok] at h
    obtain ⟨⟨sub, next⟩, hsub, h⟩ := h
    dsimp only at h
    rw [bind_eq_ok] at h
    obtain ⟨rest, hrest, h⟩ := h
    cases h
    rcases List.mem_append.mp hpiece with hpiece | hpiece
    · rw [tokenChunks, bind_eq_ok] at hsub
      obtain ⟨tokens, -, hsub⟩ := hsub
      have hwindows : (windowPieces enc s.1 tokens s.2 target (max 1 (target - overlap))
          tokens.length 0 index).1 = sub := congrArg Prod.fst (Except.ok.inj hsub)
      rw [← hwindows] at hpiece
      exact ⟨s, List.mem_cons_self, windowPieces_inSection enc hpiece⟩
    · obtain ⟨s', hs', hin⟩ := ih hrest hpiece
      exact ⟨s', List.mem_cons_of_mem s hs', hin⟩

end Pieces

/-! ### Starts of header lines -/

/-- A header line starts at this position. -/
def HeaderStart (text : Text) (start : ℕ) : Prop :=
  ∃ before line after, splitlines text = before ++ line :: after ∧ isHeader line = true ∧
    before.flatten.length = start

theorem length_flatten_le_of_isPrefix {lines lines' : List Text} (h : lines <+: lines') :
    lines.flatten.length ≤ lines'.flatten.length := by
  obtain ⟨rest, rfl⟩ := h
  rw [List.flatten_append, List.length_append]
  exact Nat.le_add_right _ _

/-- A header is not a later line of its group. -/
theorem Headed.not_inside {groups before after : List (List Text)} {group : List Text}
    (h : Headed groups) (hgroups : groups = before ++ group :: after) {text : Text}
    (hlines : groups.flatten = splitlines text) {start : ℕ} (hstart : HeaderStart text start) :
    ¬(before.flatten.flatten.length < start ∧
      start < before.flatten.flatten.length + group.flatten.length) := by
  rintro ⟨hlow, hhigh⟩
  obtain ⟨lines, line, rest, hsplit, hheader, rfl⟩ := hstart
  have hboth : before.flatten ++ (group ++ after.flatten) = lines ++ line :: rest := by
    rw [← hsplit, ← hlines, hgroups, List.flatten_append, List.flatten_cons]
  rcases List.append_eq_append_iff.mp hboth with ⟨inner, rfl, hgroup⟩ | ⟨inner, hbefore, -⟩
  · -- the lines of the group before the header
    have hinner : inner ≠ [] := by
      rintro rfl
      rw [List.append_nil] at hlow
      omega
    rcases List.append_eq_append_iff.mp hgroup with ⟨outer, rfl, -⟩ | ⟨tail, rfl, htail⟩
    · rw [List.flatten_append, List.length_append] at hhigh
      have hle := length_flatten_le_of_isPrefix (List.prefix_append group outer)
      omega
    · cases tail with
      | nil =>
        rw [List.append_nil, List.flatten_append, List.length_append] at hhigh
        omega
      | cons first tail =>
        obtain ⟨rfl, -⟩ := List.cons.inj htail
        have hmem : line ∈ (inner ++ line :: tail).tail := by
          rw [List.tail_append_of_ne_nil hinner]
          exact List.mem_append_right _ List.mem_cons_self
        have hfalse := h.later (inner ++ line :: tail) (by simp [hgroups]) line hmem
        rw [hheader] at hfalse
        cases hfalse
  · have hle := length_flatten_le_of_isPrefix (hbefore ▸ List.prefix_append lines inner)
    omega

/-! ### Sections and pieces of a document -/

section Groups

variable {groups : List (List Text)} {text : Text}

theorem group_lines (hlines : groups.flatten = splitlines text) {group : List Text}
    (h : group ∈ groups) : splitlines group.flatten = group := by
  obtain ⟨before, after, rfl⟩ := List.append_of_mem h
  have hsplit : splitlines text = before.flatten ++ group ++ after.flatten := by
    rw [← hlines, List.flatten_append, List.flatten_cons, List.append_assoc]
  exact splitlines_flatten hsplit

/-- A section is a group at the length of the groups before it. -/
theorem mem_placed_groups {s : Text × ℕ} (h : s ∈ placed 0 (groups.map List.flatten)) :
    ∃ before group after, groups = before ++ group :: after ∧
      s = (group.flatten, before.flatten.flatten.length) := by
  obtain ⟨front, back, hsplit⟩ := List.append_of_mem h
  have hoffset := placed_eq_append hsplit
  have hmap := congrArg (List.map Prod.fst) hsplit
  rw [map_fst_placed, List.map_append, List.map_cons] at hmap
  obtain ⟨before, rest, rfl, hbefore, hrest⟩ := List.map_eq_append_iff.mp hmap
  obtain ⟨group, after, rfl, hgroup, -⟩ := List.map_eq_cons_iff.mp hrest
  refine ⟨before, group, after, rfl, ?_⟩
  rw [Nat.zero_add, ← hbefore, ← List.flatten_flatten] at hoffset
  rw [← hoffset, hgroup]

theorem InSection.in_text {pre sec post : Text} {piece : ChunkPiece}
    (h : InSection (sec, pre.length) piece) :
    piece.content = ((pre ++ sec ++ post).drop piece.charStart).take piece.content.length := by
  obtain ⟨hstart, hend, hcontent⟩ := h
  dsimp only at hstart hend hcontent
  rw [List.append_assoc, List.drop_append, List.drop_eq_nil_of_le hstart, List.nil_append,
    List.drop_append, List.take_append_of_le_length, ← hcontent]
  rw [List.length_drop]
  omega

end Groups

/-- The sections lose nothing, begin at the header lines, and bound the pieces. -/
theorem markdown_sections_complete (text : Text) :
    let sections := splitMarkdownSections text
    (sections.map Prod.fst).flatten = text ∧
    (∀ before s after, sections = before ++ s :: after →
      s.2 = (before.map Prod.fst).flatten.length) ∧
    (∀ s ∈ sections, s.1 ≠ []) ∧
    (sections.flatMap fun s => splitlines s.1) = splitlines text ∧
    (∀ s ∈ sections, ∀ line ∈ (splitlines s.1).tail, isHeader line = false) ∧
    (∀ s ∈ sections.tail, ∃ line, (splitlines s.1).head? = some line ∧ isHeader line = true) ∧
    ∀ enc target overlap pieces, chunkDocument enc text true target overlap = .ok pieces →
      ∀ piece ∈ pieces,
        piece.content = (text.drop piece.charStart).take piece.content.length ∧
        ∀ start, HeaderStart text start →
          ¬(piece.charStart < start ∧ start < piece.charStart + piece.content.length) := by
  intro sections
  obtain ⟨groups, hheaded, hlines, hplaced⟩ := splitMarkdownSections_headed text
  have hsections : sections = placed 0 (groups.map List.flatten) := hplaced
  have htext : groups.flatten.flatten = text := by
    rw [hlines, flatten_splitlines]
  have hgroup : ∀ s ∈ sections, ∃ group ∈ groups, s.1 = group.flatten := by
    intro s hs
    rw [hsections] at hs
    obtain ⟨before, group, after, rfl, rfl⟩ := mem_placed_groups hs
    exact ⟨group, by simp, rfl⟩
  refine ⟨?_, ?_, ?_, ?_, ?_, ?_, ?_⟩
  · rw [hsections, map_fst_placed, ← List.flatten_flatten, htext]
  · intro before s after hsplit
    rw [hsections] at hsplit
    rw [placed_eq_append hsplit, Nat.zero_add]
  · intro s hs
    obtain ⟨group, hmem, hs⟩ := hgroup s hs
    obtain ⟨line, rest, rfl⟩ := List.exists_cons_of_ne_nil (hheaded.nonempty group hmem)
    have hline : line ≠ [] := by
      apply ne_nil_of_mem_splitlines (s := text)
      rw [← hlines]
      exact List.mem_flatten.mpr ⟨_, hmem, List.mem_cons_self⟩
    rw [hs, List.flatten_cons]
    exact List.append_ne_nil_of_left_ne_nil hline _
  · have hown : ∀ group ∈ groups, splitlines group.flatten = group :=
      fun group => group_lines hlines
    calc
      (sections.flatMap fun s => splitlines s.1) = (sections.map Prod.fst).flatMap splitlines := by
        rw [List.flatMap_map]
      _ = (groups.map List.flatten).flatMap splitlines := by
        rw [hsections, map_fst_placed]
      _ = (groups.map fun group => splitlines group.flatten).flatten := by
        rw [List.flatMap_map, List.flatMap_def]
      _ = groups.flatten := by rw [List.map_congr_left hown, List.map_id']
      _ = splitlines text := hlines
  · intro s hs line hline
    obtain ⟨group, hmem, hs⟩ := hgroup s hs
    rw [hs, group_lines hlines hmem] at hline
    exact hheaded.later group hmem line hline
  · intro s hs
    rw [hsections] at hs
    cases groups with
    | nil => cases hs
    | cons first groups =>
      have hmem : s.1 ∈ groups.map List.flatten := by
        rw [← map_fst_placed (0 + first.flatten.length) (groups.map List.flatten)]
        exact List.mem_map_of_mem hs
      obtain ⟨group, hlater, hs⟩ := List.mem_map.mp hmem
      obtain ⟨line, hhead, hheader⟩ := hheaded.first group hlater
      refine ⟨line, ?_, hheader⟩
      rw [← hs, group_lines hlines (List.mem_cons_of_mem first hlater), hhead]
  · intro enc target overlap pieces hpieces piece hpiece
    rw [chunkDocument, if_pos rfl, hplaced] at hpieces
    obtain ⟨s, hs, hin⟩ := sectionChunks_inSection enc hpieces hpiece
    obtain ⟨before, group, after, hsplit, rfl⟩ := mem_placed_groups hs
    have hparts : before.flatten.flatten ++ group.flatten ++ after.flatten.flatten = text := by
      rw [← htext, hsplit]
      simp
    constructor
    · rw [← hparts]
      exact hin.in_text
    · rintro start hstart ⟨hlow, hhigh⟩
      apply hheaded.not_inside hsplit hlines hstart
      exact ⟨hin.start_le.trans_lt hlow, hhigh.trans_le hin.end_le⟩

end GroundedOps.Ingestion
