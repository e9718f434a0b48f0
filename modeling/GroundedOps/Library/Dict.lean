import Mathlib.Data.List.Lookmap
import Mathlib.Data.List.Nodup
import Mathlib.Tactic

/-!
# Insertion-ordered dictionaries

The items are kept in insertion order and no key occurs twice. Assigning to a
present key replaces its value in place; assigning to a fresh key appends.
-/

namespace GroundedOps

structure Dict (κ ν : Type*) where
  items : List (κ × ν)
  nodup : (items.map Prod.fst).Nodup

namespace Dict

variable {κ ν : Type*}

def empty : Dict κ ν := ⟨[], List.nodup_nil⟩

def keys (d : Dict κ ν) : List κ := d.items.map Prod.fst

def values (d : Dict κ ν) : List ν := d.items.map Prod.snd

theorem nodup_keys (d : Dict κ ν) : d.keys.Nodup := d.nodup

@[simp] theorem keys_empty : (empty : Dict κ ν).keys = [] := rfl

@[simp] theorem length_values (d : Dict κ ν) : d.values.length = d.keys.length := by
  simp [keys, values]

/-- The items with a property, in order. -/
def filter (p : κ × ν → Bool) (d : Dict κ ν) : Dict κ ν :=
  ⟨d.items.filter p, d.nodup.sublist (List.filter_sublist.map _)⟩

theorem mem_items_filter {p : κ × ν → Bool} {d : Dict κ ν} {x : κ × ν} :
    x ∈ (d.filter p).items ↔ x ∈ d.items ∧ p x = true := List.mem_filter

theorem lookup_eq_some [BEq κ] [LawfulBEq κ] {items : List (κ × ν)}
    (h : (items.map Prod.fst).Nodup) {k : κ} {v : ν} :
    items.lookup k = some v ↔ (k, v) ∈ items := by
  induction items with
  | nil => simp
  | cons p items ih =>
    obtain ⟨k', v'⟩ := p
    simp only [List.map_cons, List.nodup_cons] at h
    by_cases hk : k = k'
    · subst hk
      have hno : (k, v) ∉ items := fun hmem => h.1 (List.mem_map.mpr ⟨_, hmem, rfl⟩)
      simp [hno, eq_comm]
    · have hbeq : (k == k') = false := beq_eq_false_iff_ne.mpr hk
      simp [List.lookup_cons, hbeq, hk, ih h.2]

variable [DecidableEq κ]

def get? (d : Dict κ ν) (k : κ) : Option ν := d.items.lookup k

theorem get?_eq_some {d : Dict κ ν} {k : κ} {v : ν} : d.get? k = some v ↔ (k, v) ∈ d.items :=
  lookup_eq_some d.nodup

theorem get?_eq_none {d : Dict κ ν} {k : κ} : d.get? k = none ↔ k ∉ d.keys := by
  rw [Option.eq_none_iff_forall_ne_some]
  simp only [ne_eq, get?_eq_some, keys, List.mem_map, Prod.exists, exists_and_right,
    exists_eq_right, not_exists]

theorem get?_isSome {d : Dict κ ν} {k : κ} : (d.get? k).isSome ↔ k ∈ d.keys := by
  rw [← not_iff_not, ← get?_eq_none]
  simp

theorem get?_filter (p : κ → Bool) (d : Dict κ ν) (k : κ) :
    (d.filter fun e => p e.1).get? k = if p k then d.get? k else none := by
  ext v
  rw [get?_eq_some, mem_items_filter, ← get?_eq_some]
  split_ifs with h <;> simp [h]

def set (d : Dict κ ν) (k : κ) (v : ν) : Dict κ ν :=
  if h : k ∈ d.keys then
    ⟨d.items.map fun p => if p.1 = k then (k, v) else p, by
      have hf : (d.items.map fun p => if p.1 = k then (k, v) else p).map Prod.fst = d.keys := by
        simp only [List.map_map, keys]
        refine List.map_congr_left fun p _ => ?_
        by_cases hp : p.1 = k <;> simp [hp]
      rw [hf]
      exact d.nodup⟩
  else
    ⟨d.items ++ [(k, v)], by
      simp only [List.map_append, List.map_cons, List.map_nil]
      exact List.Nodup.append d.nodup (List.nodup_singleton k)
        (by simpa [keys] using h)⟩

theorem items_set_of_notMem {d : Dict κ ν} {k : κ} (h : k ∉ d.keys) (v : ν) :
    (d.set k v).items = d.items ++ [(k, v)] := by
  simp [set, h]

theorem items_set_of_mem {d : Dict κ ν} {k : κ} (h : k ∈ d.keys) (v : ν) :
    (d.set k v).items = d.items.map fun p => if p.1 = k then (k, v) else p := by
  simp [set, h]

theorem mem_items_set {d : Dict κ ν} {k k' : κ} {v v' : ν} :
    (k', v') ∈ (d.set k v).items ↔ (k' = k ∧ v' = v) ∨ (k' ≠ k ∧ (k', v') ∈ d.items) := by
  by_cases h : k ∈ d.keys
  · rw [items_set_of_mem h, List.mem_map]
    constructor
    · rintro ⟨⟨a, b⟩, hp, heq⟩
      split_ifs at heq with hk
      · exact Or.inl (by simpa [eq_comm] using heq)
      · cases heq
        exact Or.inr ⟨hk, hp⟩
    · rintro (⟨rfl, rfl⟩ | ⟨hk, hp⟩)
      · obtain ⟨p, hp, hpk⟩ := List.mem_map.mp h
        exact ⟨p, hp, by simp [hpk]⟩
      · exact ⟨_, hp, by simp [hk]⟩
  · rw [items_set_of_notMem h, List.mem_append]
    constructor
    · rintro (hp | hp)
      · have hk : k' ≠ k := by
          rintro rfl
          exact h (List.mem_map.mpr ⟨_, hp, rfl⟩)
        exact Or.inr ⟨hk, hp⟩
      · exact Or.inl (by simpa using hp)
    · rintro (⟨rfl, rfl⟩ | ⟨_, hp⟩)
      · exact Or.inr (by simp)
      · exact Or.inl hp

theorem get?_set (d : Dict κ ν) (k k' : κ) (v : ν) :
    (d.set k v).get? k' = if k' = k then some v else d.get? k' := by
  ext w
  rw [get?_eq_some, mem_items_set]
  by_cases h : k' = k
  · simp [h, eq_comm]
  · simp [h, get?_eq_some]

theorem mem_keys_set {d : Dict κ ν} {k k' : κ} {v : ν} :
    k' ∈ (d.set k v).keys ↔ k' = k ∨ k' ∈ d.keys := by
  rw [← get?_isSome, ← get?_isSome, get?_set]
  by_cases h : k' = k <;> simp [h]

/-- Sets the value of a key unless it has one. -/
def setdefault (d : Dict κ ν) (k : κ) (v : ν) : Dict κ ν := if k ∈ d.keys then d else d.set k v

theorem get?_setdefault (d : Dict κ ν) (k k' : κ) (v : ν) :
    (d.setdefault k v).get? k' = (d.get? k').or (if k' = k then some v else none) := by
  unfold setdefault
  by_cases hk : k ∈ d.keys
  · rw [if_pos hk]
    by_cases h : k' = k
    · obtain ⟨w, hw⟩ := Option.isSome_iff_exists.mp (get?_isSome.mpr hk)
      rw [h, hw, Option.some_or]
    · rw [if_neg h, Option.or_none]
  · rw [if_neg hk, get?_set]
    by_cases h : k' = k
    · rw [if_pos h, if_pos h, h, get?_eq_none.mpr hk, Option.none_or]
    · rw [if_neg h, if_neg h, Option.or_none]

/-- A dictionary comprehension: later pairs overwrite earlier ones. -/
def ofList (l : List (κ × ν)) : Dict κ ν := l.foldl (fun d p => d.set p.1 p.2) empty

theorem mem_keys_ofList {l : List (κ × ν)} {k : κ} : k ∈ (ofList l).keys ↔ k ∈ l.map Prod.fst := by
  have hgen : ∀ (l : List (κ × ν)) (d : Dict κ ν),
      k ∈ (l.foldl (fun d p => d.set p.1 p.2) d).keys ↔ k ∈ d.keys ∨ k ∈ l.map Prod.fst := by
    intro l
    induction l with
    | nil => simp
    | cons p l ih =>
      intro d
      rw [List.foldl_cons, ih, mem_keys_set, List.map_cons, List.mem_cons]
      tauto
  simpa [ofList] using hgen l empty

theorem foldl_set_items (l : List (κ × ν)) (d : Dict κ ν)
    (h : (d.keys ++ l.map Prod.fst).Nodup) :
    (l.foldl (fun d p => d.set p.1 p.2) d).items = d.items ++ l := by
  induction l generalizing d with
  | nil => simp
  | cons p l ih =>
    obtain ⟨k, v⟩ := p
    have hk : k ∉ d.keys := by
      intro hk
      exact (List.nodup_append.mp h).2.2 k hk k (by simp) rfl
    have hitems := items_set_of_notMem hk v
    have hkeys : (d.set k v).keys = d.keys ++ [k] := by simp [keys, hitems]
    rw [List.foldl_cons, ih (d.set k v) (by rw [hkeys]; simpa using h), hitems]
    simp

theorem items_ofList {l : List (κ × ν)} (h : (l.map Prod.fst).Nodup) : (ofList l).items = l := by
  simpa [ofList, empty] using foldl_set_items l empty (by simpa using h)

/-- Sets the values of all pairs, in order. -/
def update (d : Dict κ ν) (l : List (κ × ν)) : Dict κ ν := l.foldl (fun d p => d.set p.1 p.2) d

/-- Values are replaced in place, and fresh keys are appended. -/
theorem items_update [BEq κ] [LawfulBEq κ] {l : List (κ × ν)} (h : (l.map Prod.fst).Nodup)
    (d : Dict κ ν) :
    (d.update l).items = d.items.map (fun p => (p.1, (l.lookup p.1).getD p.2)) ++
      l.filter fun p => p.1 ∉ d.keys := by
  induction l generalizing d with
  | nil => simp [update]
  | cons x l ih =>
    obtain ⟨k, v⟩ := x
    obtain ⟨hk, hnodup⟩ : k ∉ l.map Prod.fst ∧ (l.map Prod.fst).Nodup := List.nodup_cons.mp h
    have hfresh : ∀ p ∈ l, p.1 ≠ k := by
      intro p hp heq
      rw [← heq] at hk
      exact hk (List.mem_map_of_mem hp)
    have hnone : l.lookup k = none := by
      rw [List.lookup_eq_none_iff]
      intro p hp
      rw [bne_iff_ne]
      exact (hfresh p hp).symm
    have hstep : d.update ((k, v) :: l) = (d.set k v).update l := rfl
    rw [hstep, ih hnodup]
    by_cases hmem : k ∈ d.keys
    · have hkeys : ∀ k', k' ∈ (d.set k v).keys ↔ k' ∈ d.keys := by
        intro k'
        rw [mem_keys_set, or_iff_right_of_imp]
        rintro rfl
        exact hmem
      rw [items_set_of_mem hmem, List.map_map, List.filter_cons_of_neg (by simp [hmem])]
      congr 1
      · apply List.map_congr_left
        rintro ⟨k', w⟩ -
        by_cases heq : k' = k
        · subst heq
          simp [hnone]
        · simp [heq, List.lookup_cons, beq_eq_false_iff_ne.mpr heq]
      · apply List.filter_congr
        rintro p -
        simp only [hkeys]
    · rw [items_set_of_notMem hmem, List.map_append, List.map_singleton, hnone,
        List.filter_cons_of_pos (by simpa using hmem), List.append_assoc]
      congr 1
      · apply List.map_congr_left
        rintro ⟨k', w⟩ hp
        have hne : k' ≠ k := by
          rintro rfl
          exact hmem (List.mem_map.mpr ⟨_, hp, rfl⟩)
        rw [List.lookup_cons, beq_eq_false_iff_ne.mpr hne]
      · rw [List.singleton_append]
        congr 1
        apply List.filter_congr
        rintro p hp
        simp only [mem_keys_set, or_iff_right (hfresh p hp)]

end Dict

end GroundedOps
