import GroundedOps.Ingestion.Chunker

/-!
# Markdown sections

The lines of a text are grouped at the headers: a header is the first line of its group, and
only the first group may begin with another line. The sections are the groups, so nothing is
lost between them and every offset is the length of what stands before.
-/

namespace GroundedOps.Ingestion

open Python

/-! ### Lines -/

theorem flatten_consLine (c : Char) (lines : List Text) :
    (consLine c lines).flatten = c :: lines.flatten := by
  cases lines <;> rfl

theorem splitlines_cons {c : Char} (hend : ¬lineEnds.contains c.toNat = true) (s : Text) :
    splitlines (c :: s) = consLine c (splitlines s) := by
  rw [splitlines, if_neg hend]
  rintro _ rfl
  exact absurd (by decide) hend

theorem flatten_splitlines (s : Text) : (splitlines s).flatten = s := by
  induction s using splitlines.induct with
  | case1 => rfl
  | case2 s ih => simp [splitlines, ih]
  | case3 c s hcr hend ih =>
    rw [splitlines, if_pos hend, List.flatten_cons, ih]
    · rfl
    · exact hcr
  | case4 c s hcr hend ih => rw [splitlines_cons hend, flatten_consLine, ih]

theorem ne_nil_of_mem_splitlines {s line : Text} (h : line ∈ splitlines s) : line ≠ [] := by
  induction s using splitlines.induct generalizing line with
  | case1 => cases h
  | case2 s ih =>
    rw [splitlines] at h
    rcases List.mem_cons.mp h with rfl | h
    · exact List.cons_ne_nil _ _
    · exact ih h
  | case3 c s hcr hend ih =>
    rw [splitlines, if_pos hend] at h
    · rcases List.mem_cons.mp h with rfl | h
      · exact List.cons_ne_nil _ _
      · exact ih h
    · exact hcr
  | case4 c s hcr hend ih =>
    rw [splitlines_cons hend] at h
    cases hlines : splitlines s with
    | nil =>
      rw [hlines] at h
      rw [List.mem_singleton.mp h]
      exact List.cons_ne_nil _ _
    | cons first lines =>
      rw [hlines] at h
      rcases List.mem_cons.mp h with rfl | h
      · exact List.cons_ne_nil _ _
      · exact ih (hlines ▸ List.mem_cons_of_mem _ h)

/-- A line ends where it ended when the text goes on with the same character. -/
theorem splitlines_append {s line u : Text} {rest : List Text} (h : splitlines s = line :: rest)
    (hu : u.head? = rest.flatten.head?) : splitlines (line ++ u) = line :: splitlines u := by
  induction s using splitlines.induct generalizing line rest with
  | case1 => cases h
  | case2 s ih =>
    rw [splitlines] at h
    cases h
    rw [List.cons_append, List.cons_append, List.nil_append, splitlines]
  | case3 c s hcr hend ih =>
    rw [splitlines, if_pos hend] at h
    · cases h
      rw [flatten_splitlines] at hu
      rw [List.singleton_append, splitlines, if_pos hend]
      -- a carriage return is not followed by a newline here either
      rintro t rfl rfl
      obtain ⟨t', rfl⟩ : ∃ t', s = '\n' :: t' := by
        cases s with
        | nil => cases hu
        | cons d t' =>
          cases hu
          exact ⟨t', rfl⟩
      exact hcr t' rfl rfl
    · exact hcr
  | case4 c s hcr hend ih =>
    rw [splitlines_cons hend] at h
    cases hlines : splitlines s with
    | nil =>
      rw [hlines] at h
      cases h
      have hempty : u = [] := by simpa using hu
      rw [hempty, List.append_nil, splitlines_cons hend]
      rfl
    | cons first lines =>
      rw [hlines] at h
      cases h
      rw [List.cons_append, splitlines_cons hend, ih hlines hu]
      rfl

theorem splitlines_line {s line : Text} {rest : List Text} (h : splitlines s = line :: rest) :
    splitlines line = [line] := by
  induction s using splitlines.induct generalizing line rest with
  | case1 => cases h
  | case2 s ih =>
    rw [splitlines] at h
    cases h
    rfl
  | case3 c s hcr hend ih =>
    rw [splitlines, if_pos hend] at h
    · cases h
      rw [splitlines, if_pos hend]
      · rfl
      · rintro t - ht
        cases ht
    · exact hcr
  | case4 c s hcr hend ih =>
    rw [splitlines_cons hend] at h
    cases hlines : splitlines s with
    | nil =>
      rw [hlines] at h
      cases h
      rw [splitlines_cons hend]
      rfl
    | cons first lines =>
      rw [hlines] at h
      cases h
      rw [splitlines_cons hend, ih hlines]
      rfl

theorem splitlines_rest {s line : Text} {rest : List Text} (h : splitlines s = line :: rest) :
    splitlines rest.flatten = rest := by
  have hs : line ++ rest.flatten = s := by
    rw [← List.flatten_cons, ← h, flatten_splitlines]
  have hsplit := splitlines_append h rfl
  rw [hs, h] at hsplit
  exact (List.cons.inj hsplit).2.symm

/-- Consecutive lines of a text are the lines of their own text. -/
theorem splitlines_flatten {s : Text} {before lines after : List Text}
    (h : splitlines s = before ++ lines ++ after) : splitlines lines.flatten = lines := by
  induction before generalizing s with
  | cons line before ih =>
    rw [List.cons_append, List.cons_append] at h
    exact ih (splitlines_rest h)
  | nil =>
    induction lines generalizing s with
    | nil => rfl
    | cons line lines ih =>
      rw [List.nil_append, List.cons_append] at h
      have hlines := ih (splitlines_rest h)
      cases lines with
      | nil => simpa using splitlines_line h
      | cons next lines =>
        have hne : next ≠ [] := by
          apply ne_nil_of_mem_splitlines
          rw [h]
          simp
        obtain ⟨c, next, rfl⟩ := List.exists_cons_of_ne_nil hne
        have hhead : ((c :: next) :: lines).flatten.head? =
            ((c :: next) :: lines ++ after).flatten.head? := rfl
        rw [List.flatten_cons, splitlines_append h hhead, hlines]

/-! ### Sections -/

/-- The sections with the offsets at which they follow one another. -/
def placed : ℕ → List Text → List (Text × ℕ)
  | _, [] => []
  | offset, s :: sections => (s, offset) :: placed (offset + s.length) sections

theorem placed_append (offset : ℕ) (sections sections' : List Text) :
    placed offset (sections ++ sections') =
      placed offset sections ++ placed (offset + sections.flatten.length) sections' := by
  induction sections generalizing offset with
  | nil => rfl
  | cons s sections ih =>
    rw [List.cons_append, placed, ih, placed, List.cons_append, List.flatten_cons,
      List.length_append, Nat.add_assoc]

@[simp] theorem map_fst_placed (offset : ℕ) (sections : List Text) :
    (placed offset sections).map Prod.fst = sections := by
  induction sections generalizing offset with
  | nil => rfl
  | cons s sections ih => rw [placed, List.map_cons, ih]

theorem placed_eq_append {offset : ℕ} {sections : List Text} {before after : List (Text × ℕ)}
    {s : Text × ℕ} (h : placed offset sections = before ++ s :: after) :
    s.2 = offset + (before.map Prod.fst).flatten.length := by
  induction before generalizing offset sections with
  | nil =>
    cases sections with
    | nil => cases h
    | cons t sections =>
      cases h
      rfl
  | cons p before ih =>
    cases sections with
    | nil => cases h
    | cons t sections =>
      obtain ⟨rfl, hrest⟩ := List.cons.inj h
      rw [ih hrest, List.map_cons, List.flatten_cons, List.length_append, Nat.add_assoc]

/-- Groups of lines that begin at the headers. -/
structure Headed (groups : List (List Text)) : Prop where
  nonempty : ∀ group ∈ groups, group ≠ []
  later : ∀ group ∈ groups, ∀ line ∈ group.tail, isHeader line = false
  first : ∀ group ∈ groups.tail, ∃ line, group.head? = some line ∧ isHeader line = true

namespace Headed

variable {groups : List (List Text)} {group : List Text} {line : Text}

theorem nil : Headed [] where
  nonempty := by simp
  later := by simp
  first := by simp

theorem singleton (line : Text) : Headed [[line]] where
  nonempty := by simp
  later := by simp
  first := by simp

theorem begin (h : Headed groups) (hline : isHeader line = true) : Headed (groups ++ [[line]]) where
  nonempty := List.forall_mem_append.mpr ⟨h.nonempty, by simp⟩
  later := List.forall_mem_append.mpr ⟨h.later, by simp⟩
  first := by
    cases groups with
    | nil => simp
    | cons first groups =>
      rw [List.cons_append, List.tail_cons, List.forall_mem_append]
      refine ⟨h.first, ?_⟩
      intro group hgroup
      exact ⟨line, by rw [List.mem_singleton.mp hgroup]; rfl, hline⟩

theorem extend (h : Headed (groups ++ [group])) (hline : isHeader line = false) :
    Headed (groups ++ [group ++ [line]]) := by
  have hne : group ≠ [] := h.nonempty group (by simp)
  obtain ⟨hnonempty, hlater, hfirst⟩ := h
  rw [List.forall_mem_append] at hnonempty hlater
  constructor
  · exact List.forall_mem_append.mpr ⟨hnonempty.1, by simp⟩
  · refine List.forall_mem_append.mpr ⟨hlater.1, ?_⟩
    intro group' hgroup' line' hline'
    rw [List.mem_singleton.mp hgroup', List.tail_append_of_ne_nil hne] at hline'
    rcases List.mem_append.mp hline' with hmem | hmem
    · exact hlater.2 group (by simp) line' hmem
    · rw [List.mem_singleton.mp hmem, hline]
  · cases groups with
    | nil => simp
    | cons first groups =>
      rw [List.cons_append, List.tail_cons, List.forall_mem_append] at hfirst ⊢
      refine ⟨hfirst.1, ?_⟩
      intro group' hgroup'
      obtain ⟨line', hhead, hheader⟩ := hfirst.2 group (by simp)
      refine ⟨line', ?_, hheader⟩
      rw [List.mem_singleton.mp hgroup', List.head?_append, hhead]
      rfl

end Headed

/-- What has been read is in the closed groups and in the open one. -/
structure Reading (s : Sections) (closed : List (List Text)) (lines : List Text) : Prop where
  sections : s.sections = placed 0 (closed.map List.flatten)
  consumed : closed.flatten ++ s.cur = lines
  sectionOffset : s.sectionOffset = closed.flatten.flatten.length
  offset : s.offset = lines.flatten.length
  headed : s.cur ≠ [] → Headed (closed ++ [s.cur])
  started : s.cur = [] → closed = []

theorem Reading.push {s : Sections} {closed : List (List Text)} {lines : List Text}
    (h : Reading s closed lines) (line : Text) :
    ∃ closed', Reading (s.push line) closed' (lines ++ [line]) := by
  obtain ⟨hsections, hlines, hsection, hoffset, hheaded, hstarted⟩ := h
  by_cases hcur : s.cur = []
  · have hclosed := hstarted hcur
    subst hclosed
    refine ⟨[], ?_⟩
    constructor
    · simp [Sections.push, hcur, hsections]
    · simp [Sections.push, hcur, ← hlines]
    · simp [Sections.push, hcur, hsection]
    · simp [Sections.push, hcur, hoffset]
    · intro _
      simpa [Sections.push, hcur] using Headed.singleton line
    · simp [Sections.push, hcur]
  · cases hheader : isHeader line with
    | true =>
      refine ⟨closed ++ [s.cur], ?_⟩
      constructor
      · simp [Sections.push, hcur, hheader, placed_append, placed, hsections, hsection,
          List.flatten_flatten]
      · simp [Sections.push, hcur, hheader, ← hlines]
      · simp [Sections.push, hcur, hheader, hoffset, ← hlines]
      · simp [Sections.push, hcur, hheader, hoffset]
      · intro _
        simpa [Sections.push, hcur, hheader] using (hheaded hcur).begin hheader
      · simp [Sections.push, hcur, hheader]
    | false =>
      refine ⟨closed, ?_⟩
      constructor
      · simp [Sections.push, hheader, hsections]
      · simp [Sections.push, hheader, ← hlines]
      · simp [Sections.push, hheader, hsection]
      · simp [Sections.push, hheader, hoffset]
      · intro _
        simpa [Sections.push, hheader] using (hheaded hcur).extend hheader
      · simp [Sections.push, hheader]

theorem Reading.foldl {s : Sections} {closed : List (List Text)} {lines : List Text}
    (h : Reading s closed lines) (more : List Text) :
    ∃ closed', Reading (more.foldl Sections.push s) closed' (lines ++ more) := by
  induction more generalizing s closed lines with
  | nil => exact ⟨closed, by simpa using h⟩
  | cons line more ih =>
    obtain ⟨closed', h'⟩ := h.push line
    obtain ⟨closed'', h''⟩ := ih h'
    rw [List.append_assoc, List.singleton_append] at h''
    exact ⟨closed'', h''⟩

/-- The sections are the groups of lines that begin at the headers. -/
theorem splitMarkdownSections_headed (text : Text) :
    ∃ groups, Headed groups ∧ groups.flatten = splitlines text ∧
      splitMarkdownSections text = placed 0 (groups.map List.flatten) := by
  have hstart : Reading {} [] [] :=
    ⟨rfl, rfl, rfl, rfl, fun hne => absurd rfl hne, fun _ => rfl⟩
  obtain ⟨closed, hsections, hlines, hsection, -, hheaded, hstarted⟩ :=
    hstart.foldl (splitlines text)
  rw [List.nil_append] at hlines
  rw [splitMarkdownSections]
  split_ifs with hcur
  · have hempty := List.isEmpty_iff.mp hcur
    have hclosed := hstarted hempty
    subst hclosed
    rw [hempty] at hlines
    exact ⟨[], .nil, hlines, hsections⟩
  · refine ⟨closed ++ [((splitlines text).foldl Sections.push {}).cur], ?_, ?_, ?_⟩
    · exact hheaded fun hempty => hcur (List.isEmpty_iff.mpr hempty)
    · rw [List.flatten_append, List.flatten_singleton, hlines]
    · rw [List.map_append, placed_append, hsections, hsection, Nat.zero_add,
        List.flatten_flatten]
      rfl

/-- The sections follow one another and make up the text. -/
theorem splitMarkdownSections_placed (text : Text) :
    ∃ sections, splitMarkdownSections text = placed 0 sections ∧ sections.flatten = text := by
  obtain ⟨groups, -, hlines, hsections⟩ := splitMarkdownSections_headed text
  refine ⟨groups.map List.flatten, hsections, ?_⟩
  rw [← List.flatten_flatten, hlines, flatten_splitlines]

end GroundedOps.Ingestion
