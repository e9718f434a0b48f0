import Mathlib.Data.List.Forall2
import Mathlib.Data.List.Perm.Basic
import Mathlib.Tactic

/-!
# Lists in parts

Cutting a list into chunks loses nothing, a relation between two lists splits where the
first one does, and what is done to every element commutes with permuting them.
-/

namespace GroundedOps

variable {α β : Type*}

theorem flatten_toChunks (n : ℕ) (l : List α) : (l.toChunks n).flatten = l := by
  have hgo : ∀ (s : List α) (a : Array α) (b : Array (List α)),
      (List.toChunks.go n s a b).flatten = b.toList.flatten ++ a.toList ++ s := by
    intro s
    induction s with
    | nil =>
      intro a b
      simp [List.toChunks.go]
    | cons c s ih =>
      intro a b
      rw [List.toChunks.go]
      split_ifs
      · rw [ih]
        simp
      · rw [ih]
        simp
  cases l with
  | nil => rfl
  | cons c s =>
    cases n with
    | zero => simp [List.toChunks]
    | succ n =>
      rw [List.toChunks, hgo]
      · simp
      · simp

theorem forall₂_append_left {R : α → β → Prop} {l₁ l₂ : List α} {u : List β} :
    List.Forall₂ R (l₁ ++ l₂) u ↔
      ∃ u₁ u₂, List.Forall₂ R l₁ u₁ ∧ List.Forall₂ R l₂ u₂ ∧ u = u₁ ++ u₂ := by
  constructor
  · intro h
    induction l₁ generalizing u with
    | nil => exact ⟨[], u, .nil, h, rfl⟩
    | cons a l₁ ih =>
      cases h with
      | cons hab h =>
        obtain ⟨u₁, u₂, h₁, h₂, rfl⟩ := ih h
        exact ⟨_, u₂, .cons hab h₁, h₂, rfl⟩
  · rintro ⟨u₁, u₂, h₁, h₂, rfl⟩
    exact List.rel_append h₁ h₂

theorem exists_of_forall₂_right {R : α → β → Prop} {l : List α} {u : List β}
    (h : List.Forall₂ R l u) {b : β} (hb : b ∈ u) : ∃ a ∈ l, R a b := by
  induction h with
  | nil => cases hb
  | cons hab _ ih =>
    rcases List.mem_cons.mp hb with rfl | hb
    · exact ⟨_, List.mem_cons_self, hab⟩
    · obtain ⟨a, ha, hr⟩ := ih hb
      exact ⟨a, List.mem_cons_of_mem _ ha, hr⟩

theorem exists_of_forall₂_left {R : α → β → Prop} {l : List α} {u : List β}
    (h : List.Forall₂ R l u) {a : α} (ha : a ∈ l) : ∃ b ∈ u, R a b :=
  exists_of_forall₂_right h.flip ha

theorem map_eq_map_of_forall₂ {γ : Type*} {f : α → γ} {g : β → γ} {l : List α} {u : List β}
    (h : List.Forall₂ (fun a b => g b = f a) l u) : u.map g = l.map f := by
  induction h with
  | nil => rfl
  | cons hab _ ih => rw [List.map_cons, List.map_cons, hab, ih]

/-- A permutation of the images is the images of a permutation. -/
theorem exists_perm_of_perm_map {f : α → β} {l : List β} {s : List α} (h : l.Perm (s.map f)) :
    ∃ s' : List α, l = s'.map f ∧ s'.Perm s := by
  have hcomp := congrFun (congrFun (List.eq_map_comp_perm f) l) s
  exact cast hcomp.symm h

theorem map_getD_range (l : List α) (d : α) :
    ((List.range l.length).map fun i => l.getD i d) = l := by
  apply List.ext_getElem
  · rw [List.length_map, List.length_range]
  · intro i _ hi
    simp [hi]

/-- The first elements of a list are those of a prefix of it unless the prefix ends too
early. -/
theorem map_take_eq_iff_of_isPrefix {s t : List α} (h : s <+: t) (f : α → β) (k : ℕ) :
    (s.take k).map f = (t.take k).map f ↔ min k t.length ≤ s.length := by
  constructor
  · intro heq
    have hlength := congrArg List.length heq
    rw [List.length_map, List.length_map, List.length_take, List.length_take] at hlength
    omega
  · intro hlength
    have hinit : s.take k <+: t.take k := h.take k
    rw [hinit.eq_of_length_le]
    rw [List.length_take, List.length_take]
    omega

/-! ### Concatenations that are compared part by part -/

theorem append_eq_append_iff_of_length_le {a b c d : List α} (hab : a.length ≤ b.length)
    (hcd : c.length ≤ d.length) : a ++ c = b ++ d ↔ a = b ∧ c = d := by
  constructor
  · intro h
    have hlength := congrArg List.length h
    rw [List.length_append, List.length_append] at hlength
    exact List.append_inj h (by omega)
  · rintro ⟨rfl, rfl⟩
    rfl

theorem length_flatMap_le {f g : α → List β} {l : List α}
    (h : ∀ x ∈ l, (f x).length ≤ (g x).length) : (l.flatMap f).length ≤ (l.flatMap g).length := by
  rw [List.length_flatMap, List.length_flatMap]
  exact List.sum_le_sum h

theorem flatMap_eq_flatMap_iff {f g : α → List β} {l : List α}
    (h : ∀ x ∈ l, (f x).length ≤ (g x).length) :
    l.flatMap f = l.flatMap g ↔ ∀ x ∈ l, f x = g x := by
  induction l with
  | nil => simp
  | cons x l ih =>
    obtain ⟨hx, hl⟩ := List.forall_mem_cons.mp h
    rw [List.flatMap_cons, List.flatMap_cons, List.forall_mem_cons, ← ih hl]
    exact append_eq_append_iff_of_length_le hx (length_flatMap_le hl)

/-- What holds of the separator and of the parts, and is kept when texts are joined. -/
theorem intercalate_of_append {P : List α → Prop} (hnil : P [])
    (happend : ∀ s t, P s → P t → P (s ++ t)) {sep : List α} (hsep : P sep)
    {parts : List (List α)} (hparts : ∀ p ∈ parts, P p) : P (sep.intercalate parts) := by
  induction parts with
  | nil => exact hnil
  | cons p parts ih =>
    obtain ⟨hp, hrest⟩ := List.forall_mem_cons.mp hparts
    cases parts with
    | nil => rwa [List.intercalate_singleton]
    | cons q parts =>
      rw [List.intercalate_cons_cons]
      exact happend _ _ (happend _ _ hp hsep) (ih hrest)

/-- A pattern does not straddle a symbol it does not hold. -/
theorem infix_append_cons_iff {c : α} {X u v : List α} (hne : X ≠ []) (hc : c ∉ X) :
    X <:+: u ++ c :: v ↔ X <:+: u ∨ X <:+: v := by
  constructor
  · rintro ⟨pre, post, h⟩
    have hsplit : u ++ c :: v = pre ++ (X ++ post) := by rw [← h, List.append_assoc]
    rcases List.append_eq_append_iff.mp hsplit with ⟨a, -, hright⟩ | ⟨a, rfl, hleft⟩
    · right
      cases a with
      | nil =>
        cases X with
        | nil => exact absurd rfl hne
        | cons x X => exact absurd (List.cons.inj hright).1 fun hx => hc (hx ▸ List.mem_cons_self)
      | cons y a =>
        obtain rfl : v = a ++ (X ++ post) := (List.cons.inj hright).2
        exact ⟨a, post, by simp⟩
    · rcases List.append_eq_append_iff.mp hleft with ⟨b, rfl, -⟩ | ⟨b, hb, hcons⟩
      · exact .inl ⟨pre, b, by simp⟩
      · cases b with
        | nil =>
          rw [List.append_nil] at hb
          exact .inl ⟨pre, [], by simp [hb]⟩
        | cons y b =>
          obtain rfl : c = y := (List.cons.inj hcons).1
          exact absurd (hb ▸ List.mem_append_right _ List.mem_cons_self) hc
  · rintro (h | h)
    · exact h.trans (List.prefix_append _ _).isInfix
    · exact h.trans ⟨u ++ [c], [], by simp⟩

/-- Every member of the second list has its partner in the first. -/
theorem exists_of_mem_forall₂ {β : Type*} {R : α → β → Prop} {l : List α} {u : List β}
    (h : List.Forall₂ R l u) {b : β} (hb : b ∈ u) : ∃ a ∈ l, R a b := by
  induction h with
  | nil => cases hb
  | cons hhead _ ih =>
    rcases List.mem_cons.mp hb with rfl | hb
    · exact ⟨_, List.mem_cons_self, hhead⟩
    · obtain ⟨a, ha, hab⟩ := ih hb
      exact ⟨a, List.mem_cons_of_mem _ ha, hab⟩

end GroundedOps
