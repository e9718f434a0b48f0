import GroundedOps.Agent.Citations

/-!
# What post-validation guarantees

The pass keeps the citations the registry holds. New citations arise exactly
where dropped citations stand between an opening bracket, digits and a closing
bracket; `Shell` describes the text between those brackets. Post-validation is
sound for an answer if and only if each such place spells an index that the
answer cites anyway, and every cited digit string can be converted.
-/

namespace GroundedOps.Agent

open Python Scan

/-- An occurrence of the citation pattern with these digits. -/
def Cited (text digits : Text) : Prop := Digits digits ∧ citation digits <:+: text

/-- The text after the replacement pass, before blanks are collapsed. -/
def strike (registry : CitationRegistry) (s : Text) : Text :=
  sub cite (fun w => if held registry w then citation w else []) s

/-- `Shell registry body ds`: removing the dropped citations of `body` leaves the digits `ds`. -/
inductive Shell (registry : CitationRegistry) : Text → Text → Prop
  | nil : Shell registry [] []
  | digit {c body ds} : isDecimal c = true → Shell registry body ds →
      Shell registry (c :: body) (c :: ds)
  | stray {w body ds} : Digits w → held registry w = false → Shell registry body ds →
      Shell registry (citation w ++ body) ds

variable {registry : CitationRegistry}

theorem cite_run {w r : Text} (h : Digits w) : cite.run (citation w ++ r) = some (w, r) :=
  citeAt_eq_some.mpr ⟨rfl, h⟩

theorem cite_run_eq_none {c : Char} {s : Text} (hc : c ≠ '[') : cite.run (c :: s) = none := by
  change citeAt (c :: s) = none
  unfold citeAt
  split
  · next heq => exact absurd (List.cons.inj heq).1 hc
  · rfl

/-- A citation is the only place in its own text where a bracket opens. -/
theorem citation_append_eq {b r p q : Text} (hb : Digits b)
    (h : citation b ++ r = p ++ '[' :: q) :
    (p = [] ∧ b ++ ']' :: r = q) ∨ ∃ p', p = citation b ++ p' ∧ r = p' ++ '[' :: q := by
  cases p with
  | nil =>
    left
    refine ⟨rfl, ?_⟩
    simpa [citation] using h
  | cons x p =>
    right
    have hx : '[' = x := (List.cons.inj h).1
    subst hx
    have htail : (b ++ [']']) ++ r = p ++ '[' :: q := (List.cons.inj h).2
    rcases List.append_eq_append_iff.mp htail with ⟨p', hp, hr⟩ | ⟨c, hc, hr⟩
    · exact ⟨p', by simp [citation, hp], hr⟩
    · cases c with
      | nil => exact ⟨[], by simpa [citation] using hc.symm, by simpa using hr.symm⟩
      | cons y c =>
        have hy : '[' = y := (List.cons.inj hr).1
        subst hy
        have hmem : '[' ∈ b ++ [']'] := by simp [hc]
        rcases List.mem_append.mp hmem with hm | hm
        · exact absurd rfl (isDecimal_ne_open (hb.2 _ hm))
        · simp at hm

theorem citation_infix_iff {b w r : Text} (hb : Digits b) (hw : Digits w) :
    citation w <:+: citation b ++ r ↔ w = b ∨ citation w <:+: r := by
  constructor
  · rintro ⟨p, q, h⟩
    have h' : citation b ++ r = p ++ '[' :: (w ++ ']' :: q) := by
      rw [← h]
      simp [citation]
    rcases citation_append_eq hb h' with ⟨-, heq⟩ | ⟨p', -, hr⟩
    · left
      have hrun : cite.run (citation b ++ r) = some (w, q) := by
        have hsame : citation b ++ r = citation w ++ q := by simp [citation, heq]
        rw [hsame, cite_run hw]
      rw [cite_run hb] at hrun
      simpa using (congrArg Prod.fst (Option.some.inj hrun)).symm
    · right
      exact ⟨p', q, by simp [citation, hr]⟩
  · rintro (rfl | h)
    · exact (List.prefix_append _ _).isInfix
    · exact h.trans (List.suffix_append _ _).isInfix

theorem citation_infix_skip {c : Char} {s w : Text} (hw : Digits w)
    (h : cite.run (c :: s) = none) : citation w <:+: c :: s ↔ citation w <:+: s := by
  rw [List.infix_cons_iff]
  refine or_iff_right fun ⟨q, hq⟩ => ?_
  rw [← hq, cite_run hw] at h
  cases h

/-- The scan finds every occurrence of the pattern. -/
theorem mem_findAll_cite {s w : Text} : w ∈ findAll cite s ↔ Cited s w := by
  induction s using scan_induction cite with
  | nil => simp [Cited, citation]
  | skip c s h ih =>
    rw [findAll_skip h, ih]
    exact and_congr_right fun hw => (citation_infix_skip hw h).symm
  | hit s b r h ih =>
    obtain ⟨rfl, hb⟩ := citeAt_eq_some.mp h
    rw [findAll_hit h, List.mem_cons, ih]
    constructor
    · rintro (rfl | ⟨hw, hi⟩)
      · exact ⟨hb, (citation_infix_iff hb hb).mpr (Or.inl rfl)⟩
      · exact ⟨hw, (citation_infix_iff hb hw).mpr (Or.inr hi)⟩
    · rintro ⟨hw, hi⟩
      exact ((citation_infix_iff hb hw).mp hi).imp id fun h => ⟨hw, h⟩

/-! ### Citations created by the pass -/

theorem strike_skip {c : Char} {s : Text} (h : cite.run (c :: s) = none) :
    strike registry (c :: s) = c :: strike registry s := sub_skip h

theorem strike_hit {s w r : Text} (h : cite.run s = some (w, r)) :
    strike registry s = (if held registry w then citation w else []) ++ strike registry r :=
  sub_hit h

/-- Digits and a closing bracket at the front of the struck text come from a shell. -/
theorem shell_of_strike {s ds t : Text} (hds : ∀ c ∈ ds, isDecimal c = true)
    (h : strike registry s = ds ++ ']' :: t) :
    ∃ body post, s = body ++ ']' :: post ∧ Shell registry body ds := by
  induction s using scan_induction cite generalizing ds with
  | nil => simp [strike] at h
  | skip c s hrun ih =>
    rw [strike_skip hrun] at h
    cases ds with
    | nil =>
      obtain ⟨rfl, -⟩ := List.cons.inj h
      exact ⟨[], s, rfl, .nil⟩
    | cons d ds =>
      obtain ⟨rfl, htail⟩ := List.cons.inj h
      obtain ⟨body, post, rfl, hshell⟩ := ih (fun x hx => hds x (by simp [hx])) htail
      exact ⟨c :: body, post, rfl, .digit (hds c (by simp)) hshell⟩
  | hit s w r hrun ih =>
    obtain ⟨rfl, hw⟩ := citeAt_eq_some.mp hrun
    rw [strike_hit hrun] at h
    cases hheld : held registry w with
    | true =>
      simp only [hheld, if_true, citation, List.cons_append] at h
      cases ds with
      | nil => simp at h
      | cons d ds =>
        obtain ⟨rfl, -⟩ := List.cons.inj h
        exact absurd rfl (isDecimal_ne_open (hds '[' (by simp)))
    | false =>
      simp only [hheld, Bool.false_eq_true, if_false, List.nil_append] at h
      obtain ⟨body, post, rfl, hshell⟩ := ih hds h
      exact ⟨citation w ++ body, post, by simp, .stray hw hheld hshell⟩

/-- Conversely the pass turns a shell into its digits. -/
theorem strike_shell {body ds : Text} (h : Shell registry body ds) (post : Text) :
    ∃ t, strike registry (body ++ ']' :: post) = ds ++ ']' :: t := by
  induction h with
  | nil => exact ⟨_, strike_skip (cite_run_eq_none (by decide))⟩
  | digit hc _ ih =>
    obtain ⟨t, ht⟩ := ih
    refine ⟨t, ?_⟩
    rw [List.cons_append, strike_skip (cite_run_eq_none (isDecimal_ne_open hc)), ht]
    rfl
  | stray hw hheld _ ih =>
    obtain ⟨t, ht⟩ := ih
    refine ⟨t, ?_⟩
    rw [List.append_assoc, strike_hit (cite_run hw), ht]
    simp [hheld]

/-- A shell in front of a closing bracket that is itself a plain citation's
digits holds no dropped citation. -/
theorem shell_eq_of_decimal {body ds b post r : Text} (h : Shell registry body ds)
    (hb : ∀ c ∈ b, isDecimal c = true) (heq : body ++ ']' :: post = b ++ ']' :: r) :
    body = ds := by
  induction h generalizing b with
  | nil => rfl
  | @digit c body ds hc _ ih =>
    cases b with
    | nil => exact absurd (List.cons.inj heq).1 (isDecimal_ne_close hc)
    | cons d b =>
      rw [ih (fun x hx => hb x (by simp [hx])) (List.cons.inj heq).2]
  | stray hw _ _ _ =>
    cases b with
    | nil => exact absurd (List.cons.inj heq).1 (by decide)
    | cons d b =>
      obtain ⟨rfl, -⟩ := List.cons.inj heq
      exact absurd rfl (isDecimal_ne_open (hb '[' (by simp)))

/-- A place where dropping citations joins a bracket, digits and a bracket. -/
def Nested (registry : CitationRegistry) (s ds : Text) : Prop :=
  ∃ pre body post, s = pre ++ '[' :: body ++ ']' :: post ∧ Shell registry body ds ∧ body ≠ ds

theorem Nested.append {s ds : Text} (h : Nested registry s ds) (u : Text) :
    Nested registry (u ++ s) ds := by
  obtain ⟨pre, body, post, rfl, hshell, hne⟩ := h
  exact ⟨u ++ pre, body, post, by simp, hshell, hne⟩

/-- Every citation of the struck text was there before or was created by a nesting. -/
theorem cited_strike {s ds : Text} (hds : Digits ds) (h : citation ds <:+: strike registry s) :
    (Cited s ds ∧ held registry ds = true) ∨ Nested registry s ds := by
  induction s using scan_induction cite with
  | nil => simp [strike, citation] at h
  | skip c s hrun ih =>
    rw [strike_skip hrun, List.infix_cons_iff] at h
    rcases h with ⟨t, ht⟩ | h
    · right
      have hc : '[' = c := (List.cons.inj ht).1
      subst hc
      have htail : strike registry s = ds ++ ']' :: t := by
        simpa [citation] using (List.cons.inj ht).2.symm
      obtain ⟨body, post, rfl, hshell⟩ := shell_of_strike hds.2 htail
      refine ⟨[], body, post, by simp, hshell, ?_⟩
      rintro rfl
      have hsome : cite.run ('[' :: (body ++ ']' :: post)) = some (body, post) := by
        simpa [citation] using cite_run (r := post) hds
      rw [hsome] at hrun
      cases hrun
    · rcases ih h with ⟨hcited, hheld⟩ | hnest
      · exact Or.inl ⟨⟨hds, (citation_infix_skip hds hrun).mpr hcited.2⟩, hheld⟩
      · exact Or.inr (hnest.append [c])
  | hit s w r hrun ih =>
    obtain ⟨rfl, hw⟩ := citeAt_eq_some.mp hrun
    have hrest : citation ds <:+: strike registry r →
        (Cited (citation w ++ r) ds ∧ held registry ds = true) ∨
          Nested registry (citation w ++ r) ds := fun hi =>
      (ih hi).imp
        (fun hc => ⟨⟨hds, (citation_infix_iff hw hds).mpr (Or.inr hc.1.2)⟩, hc.2⟩)
        (fun hn => hn.append _)
    rw [strike_hit hrun] at h
    cases hheld : held registry w with
    | true =>
      simp only [hheld, if_true] at h
      rcases (citation_infix_iff hw hds).mp h with rfl | hi
      · exact Or.inl ⟨⟨hds, (List.prefix_append _ _).isInfix⟩, hheld⟩
      · exact hrest hi
    | false =>
      simp only [hheld, Bool.false_eq_true, if_false, List.nil_append] at h
      exact hrest h

theorem strike_of_nested {s ds : Text} (h : Nested registry s ds) :
    citation ds <:+: strike registry s := by
  obtain ⟨pre, body, post, hs, hshell, hne⟩ := h
  induction s using scan_induction cite generalizing pre with
  | nil => simp at hs
  | skip c s hrun ih =>
    rw [strike_skip hrun]
    cases pre with
    | nil =>
      obtain ⟨rfl, -⟩ := List.cons.inj hs
      have htail : s = body ++ ']' :: post := (List.cons.inj hs).2
      obtain ⟨t, ht⟩ := strike_shell hshell post
      rw [htail, ht]
      exact ⟨[], t, by simp [citation]⟩
    | cons x pre => exact List.infix_cons (ih pre (List.cons.inj hs).2)
  | hit s w r hrun ih =>
    obtain ⟨rfl, hw⟩ := citeAt_eq_some.mp hrun
    rw [List.append_assoc, List.cons_append] at hs
    rcases citation_append_eq hw hs with ⟨-, heq⟩ | ⟨p', -, hr⟩
    · exact absurd (shell_eq_of_decimal hshell hw.2 heq.symm) hne
    · rw [strike_hit hrun]
      exact (ih p' (by simpa using hr)).trans (List.suffix_append _ _).isInfix

theorem strike_of_held {s w : Text} (h : Cited s w) (hheld : held registry w = true) :
    citation w <:+: strike registry s := by
  obtain ⟨hw, hi⟩ := h
  induction s using scan_induction cite with
  | nil => simp [citation] at hi
  | skip c s hrun ih =>
    rw [strike_skip hrun]
    exact List.infix_cons (ih ((citation_infix_skip hw hrun).mp hi))
  | hit s b r hrun ih =>
    obtain ⟨rfl, hb⟩ := citeAt_eq_some.mp hrun
    rw [strike_hit hrun]
    rcases (citation_infix_iff hb hw).mp hi with rfl | hr
    · simp only [hheld, if_true]
      exact (List.prefix_append _ _).isInfix
    · exact (ih hr).trans (List.suffix_append _ _).isInfix

/-! ### The two outputs -/

theorem digits_isSpace {w : Text} (h : Digits w) : ∀ c ∈ citation w, isSpace c = false := by
  intro c hc
  simp only [citation, List.cons_append, List.mem_cons, List.mem_append, List.not_mem_nil,
    or_false] at hc
  rcases hc with rfl | hc | rfl
  · decide
  · exact not_isSpace_of_isDecimal (h.2 c hc)
  · decide

/-- Collapsing and trimming touch no citation. -/
theorem cited_cleaned {s w : Text} : Cited (strip (collapse s)) w ↔ Cited s w := by
  refine and_congr_right fun hw => ?_
  have hblank : ' ' ∉ citation w := fun h => absurd (digits_isSpace hw ' ' h) (by decide)
  rw [infix_strip (by simp [citation]) (digits_isSpace hw)]
  exact infix_collapse hblank s

theorem held_iff {w : Text} :
    held registry w = true ↔ ∃ i, intDigits w = .ok i ∧ registry.hasIndex i = true := by
  rw [held]
  cases intDigits w <;> simp

/-- The indices the pass collects, in order of the citations. -/
def heldIndices (registry : CitationRegistry) (segs : List (Char ⊕ Text)) : List ℕ :=
  segs.filterMap fun seg =>
    match seg with
    | .inl _ => none
    | .inr w => (intDigits w).toOption.filter fun i => registry.hasIndex i

theorem mem_heldIndices {segs : List (Char ⊕ Text)} {i : ℕ} :
    i ∈ heldIndices registry segs ↔
      ∃ w, .inr w ∈ segs ∧ intDigits w = .ok i ∧ registry.hasIndex i = true := by
  have hread : ∀ w, (intDigits w).toOption = some i ↔ intDigits w = .ok i := fun w => by
    cases intDigits w <;> simp [Except.toOption]
  constructor
  · intro hi
    obtain ⟨seg, hseg, hvalue⟩ := List.mem_filterMap.mp hi
    cases seg with
    | inl c => cases hvalue
    | inr w =>
      obtain ⟨hw, hreg⟩ := Option.filter_eq_some_iff.mp hvalue
      exact ⟨w, hseg, (hread w).mp hw, hreg⟩
  · rintro ⟨w, hw, hwi, hreg⟩
    exact List.mem_filterMap.mpr ⟨.inr w, hw, Option.filter_eq_some_iff.mpr ⟨(hread w).mpr hwi, hreg⟩⟩

theorem replaceFrom_ok (registry : CitationRegistry) {segs : List (Char ⊕ Text)} (used : List ℕ)
    (h : ∀ w, .inr w ∈ segs → ∃ i, intDigits w = .ok i) :
    replaceFrom registry segs used = .ok (segs.flatMap (Sum.elim (fun c => [c])
      fun w => if held registry w then citation w else []),
      (heldIndices registry segs).reverse ∪ used) := by
  induction segs generalizing used with
  | nil => rfl
  | cons seg segs ih =>
    have ih := fun used => ih used fun w hw => h w (by simp [hw])
    cases seg with
    | inl c =>
      rw [replaceFrom, ih]
      rfl
    | inr w =>
      obtain ⟨i, hi⟩ := h w (by simp)
      rw [replaceFrom, hi, ok_bind]
      cases hreg : registry.hasIndex i with
      | true =>
        have hheld : held registry w = true := held_iff.mpr ⟨i, hi, hreg⟩
        have hindices : heldIndices registry (.inr w :: segs) = i :: heldIndices registry segs :=
          List.filterMap_cons_some (by simp [hi, hreg, Except.toOption])
        rw [if_pos rfl, ih, hindices, List.reverse_cons, List.union_def, List.union_def,
          List.foldr_append]
        simp [hheld]
      | false =>
        have hheld : held registry w = false := by simp [held, hi, hreg]
        have hindices : heldIndices registry (.inr w :: segs) = heldIndices registry segs :=
          List.filterMap_cons_none (by simp [hi, hreg, Except.toOption])
        rw [if_neg Bool.false_ne_true, ih, hindices]
        simp [hheld]

theorem replaceFrom_readable {segs : List (Char ⊕ Text)} {used : List ℕ} {r : Text × List ℕ}
    (h : replaceFrom registry segs used = .ok r) (w : Text) (hw : .inr w ∈ segs) :
    ∃ i, intDigits w = .ok i := by
  induction segs generalizing used r with
  | nil => simp at hw
  | cons seg segs ih =>
    cases seg with
    | inl c =>
      rw [replaceFrom] at h
      cases hr : replaceFrom registry segs used with
      | error e => rw [hr] at h; cases h
      | ok r' => exact ih hr (by simpa using hw)
    | inr v =>
      rw [replaceFrom] at h
      cases hv : intDigits v with
      | error e => rw [hv] at h; cases h
      | ok i =>
        rcases List.mem_cons.mp hw with hwv | hw
        · cases hwv
          exact ⟨i, hv⟩
        · rw [hv] at h
          simp only [ok_bind] at h
          split_ifs at h
          · cases hr : replaceFrom registry segs (used.insert i) with
            | error e => rw [hr] at h; cases h
            | ok r' => exact ih hr hw
          · exact ih h hw

/-- Everything post-validation does, for the answers it does not raise on. -/
theorem validateAndStrip_ok (registry : CitationRegistry) {answer : Text}
    (h : ∀ w, Cited answer w → ∃ i, intDigits w = .ok i) :
    ∃ used, validateAndStrip answer registry =
        .ok (strip (collapse (strike registry answer)), used) ∧
      used.Pairwise (· < ·) ∧
      ∀ i, i ∈ used ↔ ∃ w, Cited answer w ∧ intDigits w = .ok i ∧ registry.hasIndex i = true := by
  have hseg : ∀ w, Sum.inr w ∈ scan cite answer ↔ Cited answer w := fun w => by
    rw [← mem_findAll_cite, findAll, List.mem_filterMap]
    constructor
    · exact fun hm => ⟨_, hm, rfl⟩
    · rintro ⟨seg, hm, hs⟩
      cases seg with
      | inl c => cases hs
      | inr v => cases hs; exact hm
  let used := (heldIndices registry (scan cite answer)).reverse ∪ []
  have hnodup : used.Nodup := List.Nodup.union _ List.nodup_nil
  have hmem : ∀ i, i ∈ used ↔
      ∃ w, Cited answer w ∧ intDigits w = .ok i ∧ registry.hasIndex i = true := fun i => by
    rw [List.mem_union_iff, List.mem_reverse, mem_heldIndices]
    simp [hseg]
  refine ⟨used.insertionSort (· ≤ ·), ?_, ?_, fun i => ?_⟩
  · rw [validateAndStrip, replaceFrom_ok registry [] fun w hw => h w ((hseg w).mp hw)]
    rfl
  · have hsorted : (used.insertionSort (· ≤ ·)).Nodup :=
      (List.perm_insertionSort _ _).nodup_iff.mpr hnodup
    exact (List.pairwise_insertionSort (· ≤ ·) used).imp₂ (fun _ _ hle hne => lt_of_le_of_ne hle hne)
      hsorted
  · rw [List.mem_insertionSort, hmem]

theorem validateAndStrip_readable {answer : Text} {r : Text × List ℕ}
    (h : validateAndStrip answer registry = .ok r) (w : Text) (hw : Cited answer w) :
    ∃ i, intDigits w = .ok i := by
  rw [validateAndStrip] at h
  cases hr : replaceFrom registry (scan cite answer) [] with
  | error e => rw [hr] at h; cases h
  | ok r' =>
    refine replaceFrom_readable hr w ?_
    rw [← mem_findAll_cite, findAll, List.mem_filterMap] at hw
    obtain ⟨seg, hm, hs⟩ := hw
    cases seg with
    | inl c => cases hs
    | inr v => cases hs; exact hm

/-! ### Soundness -/

/-- The contract of post-validation at one answer: only held citations remain,
`used` lists their indices in ascending order, and a second pass changes nothing. -/
structure PostValidated (registry : CitationRegistry) (answer cleaned : Text)
    (used : List ℕ) : Prop where
  result : validateAndStrip answer registry = .ok (cleaned, used)
  sound : ∀ w, Cited cleaned w → ∃ i, intDigits w = .ok i ∧ registry.hasIndex i = true
  sorted : used.Pairwise (· < ·)
  exact : ∀ i, i ∈ used ↔ ∃ w, Cited cleaned w ∧ intDigits w = .ok i
  stable : validateAndStrip cleaned registry = .ok (cleaned, used)

/-- The answers post-validation is sound for. -/
structure WellNested (registry : CitationRegistry) (answer : Text) : Prop where
  readable : ∀ w, Cited answer w → w.length ≤ maxStrDigits
  nested : ∀ ds, ds ≠ [] → Nested registry answer ds →
    ∃ w, Cited answer w ∧ held registry w = true ∧ intDigits ds = intDigits w

theorem Shell.digits {body ds : Text} (h : Shell registry body ds) :
    ∀ c ∈ ds, isDecimal c = true := by
  induction h with
  | nil => simp
  | digit hc _ ih => simpa using ⟨hc, ih⟩
  | stray _ _ _ ih => exact ih

theorem Nested.digits {s ds : Text} (h : Nested registry s ds) (hne : ds ≠ []) : Digits ds := by
  obtain ⟨-, body, -, -, hshell, -⟩ := h
  exact ⟨hne, hshell.digits⟩

theorem strike_eq_self {s : Text} (h : ∀ w, Cited s w → held registry w = true) :
    strike registry s = s := by
  induction s using scan_induction cite with
  | nil => rfl
  | skip c s hrun ih =>
    rw [strike_skip hrun, ih fun w hw => h w ⟨hw.1, List.infix_cons hw.2⟩]
  | hit s b r hrun ih =>
    obtain ⟨rfl, hb⟩ := citeAt_eq_some.mp hrun
    have hheld := h b ⟨hb, (List.prefix_append _ _).isInfix⟩
    rw [strike_hit hrun, hheld,
      ih fun w hw => h w ⟨hw.1, hw.2.trans (List.suffix_append _ _).isInfix⟩]
    rfl

theorem PostValidated.wellNested {answer cleaned : Text} {used : List ℕ}
    (h : PostValidated registry answer cleaned used) : WellNested registry answer := by
  have hread := fun w hw => validateAndStrip_readable h.result w hw
  obtain ⟨used', hr, -, hmem⟩ := validateAndStrip_ok registry hread
  obtain ⟨rfl, rfl⟩ : strip (collapse (strike registry answer)) = cleaned ∧ used' = used := by
    simpa using hr.symm.trans h.result
  refine ⟨fun w hw => (intDigits_decimal hw.1.1 hw.1.2).mp (hread w hw), fun ds hne hnest => ?_⟩
  have hcited : Cited (strip (collapse (strike registry answer))) ds :=
    cited_cleaned.mpr ⟨hnest.digits hne, strike_of_nested hnest⟩
  obtain ⟨i, hi, -⟩ := h.sound ds hcited
  obtain ⟨w, hw, hwi, hreg⟩ := (hmem i).mp ((h.exact i).mpr ⟨ds, hcited, hi⟩)
  exact ⟨w, hw, held_iff.mpr ⟨i, hwi, hreg⟩, hi.trans hwi.symm⟩

section WellNested

variable {answer : Text} (h : WellNested registry answer)
include h

theorem WellNested.digits_readable {w : Text} (hw : Cited answer w) : ∃ i, intDigits w = .ok i :=
  (intDigits_decimal hw.1.1 hw.1.2).mpr (h.readable w hw)

/-- Every citation of the cleaned text reads like one the answer holds. -/
theorem WellNested.origin {w : Text} (hw : Cited (strip (collapse (strike registry answer))) w) :
    ∃ v, Cited answer v ∧ held registry v = true ∧ intDigits w = intDigits v := by
  rcases cited_strike hw.1 (cited_cleaned.mp hw).2 with ⟨hc, hheld⟩ | hnest
  · exact ⟨w, hc, hheld, rfl⟩
  · exact h.nested w hw.1.1 hnest

theorem WellNested.sound {w : Text} (hw : Cited (strip (collapse (strike registry answer))) w) :
    ∃ i, intDigits w = .ok i ∧ registry.hasIndex i = true := by
  obtain ⟨v, -, hv, hwv⟩ := h.origin hw
  rw [hwv]
  exact held_iff.mp hv

/-- The answer and its cleaned text cite the same indices of the registry. -/
theorem WellNested.same_indices (i : ℕ) :
    (∃ w, Cited answer w ∧ intDigits w = .ok i ∧ registry.hasIndex i = true) ↔
      ∃ w, Cited (strip (collapse (strike registry answer))) w ∧ intDigits w = .ok i := by
  constructor
  · rintro ⟨w, hw, hwi, hreg⟩
    have hheld := held_iff.mpr ⟨i, hwi, hreg⟩
    exact ⟨w, cited_cleaned.mpr ⟨hw.1, strike_of_held hw hheld⟩, hwi⟩
  · rintro ⟨w, hw, hwi⟩
    obtain ⟨v, hv, hheld, hwv⟩ := h.origin hw
    obtain ⟨j, hj, hreg⟩ := held_iff.mp hheld
    rw [hwv, hj] at hwi
    cases hwi
    exact ⟨v, hv, hj, hreg⟩

/-- The cleaned text is its own cleaned text. -/
theorem WellNested.fixed :
    strip (collapse (strike registry (strip (collapse (strike registry answer))))) =
      strip (collapse (strike registry answer)) := by
  have hblank : ¬ [' ', ' '] <:+: strip (collapse (strike registry answer)) := fun hi =>
    not_infix_collapse _ (hi.trans (strip_isInfix _))
  rw [strike_eq_self fun w hw => held_iff.mpr (h.sound hw), collapse_eq_self hblank, strip_strip]

theorem WellNested.postValidated : ∃ cleaned used, PostValidated registry answer cleaned used := by
  obtain ⟨used, hr, hsorted, hmem⟩ := validateAndStrip_ok registry fun w hw => h.digits_readable hw
  obtain ⟨used', hr', hsorted', hmem'⟩ := validateAndStrip_ok registry
    fun w hw => (h.sound hw).imp fun _ hi => hi.1
  have hexact : ∀ i, i ∈ used ↔
      ∃ w, Cited (strip (collapse (strike registry answer))) w ∧ intDigits w = .ok i :=
    fun i => (hmem i).trans (h.same_indices i)
  have hused : used' = used := hsorted'.eq_of_mem_iff hsorted fun i => by
    rw [hmem', hexact]
    constructor
    · exact fun ⟨w, hw, hwi, _⟩ => ⟨w, hw, hwi⟩
    · rintro ⟨w, hw, hwi⟩
      obtain ⟨j, hj, hreg⟩ := h.sound hw
      rw [hwi] at hj
      cases hj
      exact ⟨w, hw, hwi, hreg⟩
  rw [h.fixed, hused] at hr'
  exact ⟨_, used, hr, fun w hw => h.sound hw, hsorted, hexact, hr'⟩

end WellNested

/-- Post-validation meets its contract on an answer exactly when no dropped
citation stands inside the brackets of an index the answer does not cite. -/
theorem postValidated_iff_wellNested (registry : CitationRegistry) (answer : Text) :
    (∃ cleaned used, PostValidated registry answer cleaned used) ↔
      WellNested registry answer :=
  ⟨fun ⟨_, _, h⟩ => h.wellNested, fun h => h.postValidated⟩

/-- The hallucinated `[9]` of `[[9]9]` is delivered although the registry is empty. -/
theorem nested_citation_delivered :
    validateAndStrip "[[9]9]".toList .empty = .ok ("[9]".toList, []) ∧
      Cited "[9]".toList "9".toList ∧ held .empty "9".toList = false ∧
      ¬ ∃ cleaned used, PostValidated .empty "[[9]9]".toList cleaned used := by
  have hrun : validateAndStrip "[[9]9]".toList .empty = .ok ("[9]".toList, []) := by decide
  have hcited : Cited "[9]".toList "9".toList := ⟨by decide, [], [], by decide⟩
  refine ⟨hrun, hcited, by decide, ?_⟩
  rintro ⟨cleaned, used, h⟩
  obtain ⟨rfl, rfl⟩ : "[9]".toList = cleaned ∧ [] = used := by
    simpa using hrun.symm.trans h.result
  obtain ⟨i, hi, hreg⟩ := h.sound _ hcited
  exact absurd (held_iff.mpr ⟨i, hi, hreg⟩) (by decide)

end GroundedOps.Agent
