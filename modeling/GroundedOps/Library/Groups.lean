import GroundedOps.Library.Lists
import Mathlib.Data.List.Count
import Mathlib.Tactic

/-!
# Groups and their sizes

The members of a list are collected under their keys, in order of first occurrence. The largest
groups, cut to some number, show how much of the list they cover: their sizes add up to the
length of the list exactly if no key was cut off.
-/

namespace GroundedOps

variable {K α : Type*} [DecidableEq K]

/-- Adds a member to the group with its key. -/
def addTo (k : K) (x : α) : List (K × List α) → List (K × List α)
  | [] => [(k, [x])]
  | g :: groups => if g.1 = k then (g.1, g.2 ++ [x]) :: groups else g :: addTo k x groups

def groupsOf (key : α → K) (members : List α) : List (K × List α) :=
  members.foldl (fun groups x => addTo (key x) x groups) []

/-- Under every key that occurs are all members with it, in order. -/
structure Groups (key : α → K) (members : List α) (groups : List (K × List α)) : Prop where
  rows : ∀ g ∈ groups, g.2 = members.filter fun x => key x = g.1
  nonempty : ∀ g ∈ groups, g.2 ≠ []
  distinct : (groups.map Prod.fst).Nodup
  total : ∀ x ∈ members, key x ∈ groups.map Prod.fst

/-- The sizes of the largest groups, at most `n` of them, the largest first. -/
structure TopGroups (key : α → K) (members : List α) (n : ℕ) (top : List (K × ℕ)) : Prop where
  counts : ∀ g ∈ top, g.2 = (members.countP fun x => key x = g.1) ∧ 0 < g.2
  distinct : (top.map Prod.fst).Nodup
  sorted : top.Pairwise fun g g' => g'.2 ≤ g.2
  length_le : top.length ≤ n
  rest : ∀ x ∈ members, key x ∉ top.map Prod.fst →
    top.length = n ∧ ∀ g ∈ top, (members.countP fun y => key y = key x) ≤ g.2

theorem keys_addTo (k : K) (x : α) (groups : List (K × List α)) :
    (addTo k x groups).map Prod.fst =
      if k ∈ groups.map Prod.fst then groups.map Prod.fst else groups.map Prod.fst ++ [k] := by
  induction groups with
  | nil => simp [addTo]
  | cons g groups ih =>
    by_cases hg : g.1 = k
    · simp [addTo, hg]
    · have hne : ¬ k = g.1 := fun h => hg h.symm
      simp only [addTo, if_neg hg, List.map_cons, ih, List.mem_cons, hne, false_or]
      split_ifs <;> simp

/-- A group after the addition is an old one, or the one of the key with the member behind. -/
theorem mem_addTo {k : K} {x : α} {groups : List (K × List α)}
    (hdistinct : (groups.map Prod.fst).Nodup) {g : K × List α} (hg : g ∈ addTo k x groups) :
    (g ∈ groups ∧ g.1 ≠ k) ∨
      (g.1 = k ∧ ((∃ rows, (k, rows) ∈ groups ∧ g.2 = rows ++ [x]) ∨
        (k ∉ groups.map Prod.fst ∧ g.2 = [x]))) := by
  induction groups with
  | nil =>
    obtain rfl := List.mem_singleton.mp hg
    exact .inr ⟨rfl, .inr ⟨by simp, rfl⟩⟩
  | cons h groups ih =>
    obtain ⟨hnot, hrest⟩ := List.nodup_cons.mp hdistinct
    unfold addTo at hg
    split_ifs at hg with hk
    · subst hk
      rcases List.mem_cons.mp hg with rfl | hg
      · exact .inr ⟨rfl, .inl ⟨h.2, by simp, rfl⟩⟩
      · refine .inl ⟨by simp [hg], ?_⟩
        intro heq
        exact hnot (heq ▸ List.mem_map_of_mem hg)
    · rcases List.mem_cons.mp hg with rfl | hg
      · exact .inl ⟨by simp, hk⟩
      · rcases ih hrest hg with ⟨hold, hne⟩ | ⟨heq, ⟨rows, hrows, hrow⟩ | ⟨hnew, hrow⟩⟩
        · exact .inl ⟨by simp [hold], hne⟩
        · exact .inr ⟨heq, .inl ⟨rows, by simp [hrows], hrow⟩⟩
        · refine .inr ⟨heq, .inr ⟨?_, hrow⟩⟩
          simp only [List.map_cons, List.mem_cons, not_or]
          exact ⟨fun h => hk h.symm, hnew⟩

theorem Groups.addTo {key : α → K} {members : List α} {groups : List (K × List α)}
    (h : Groups key members groups) (x : α) :
    Groups key (members ++ [x]) (addTo (key x) x groups) := by
  have hkeys := keys_addTo (key x) x groups
  have hlast : ∀ k, (members ++ [x]).filter (fun y => key y = k) =
      members.filter (fun y => key y = k) ++ if key x = k then [x] else [] := by
    intro k
    by_cases hk : key x = k <;> simp [hk]
  constructor
  · intro g hg
    rw [hlast]
    rcases mem_addTo h.distinct hg with ⟨hold, hne⟩ | ⟨heq, ⟨rows, hrows, hrow⟩ | ⟨hnew, hrow⟩⟩
    · rw [if_neg (Ne.symm hne), List.append_nil]
      exact h.rows g hold
    · have hold := h.rows _ hrows
      rw [hrow, heq, if_pos rfl, ← hold]
    · have hnone : members.filter (fun y => key y = key x) = [] := by
        rw [List.filter_eq_nil_iff]
        intro y hy hkey
        exact hnew (of_decide_eq_true hkey ▸ h.total y hy)
      rw [hrow, heq, if_pos rfl, hnone, List.nil_append]
  · intro g hg
    rcases mem_addTo h.distinct hg with ⟨hold, -⟩ | ⟨-, ⟨rows, -, hrow⟩ | ⟨-, hrow⟩⟩
    · exact h.nonempty g hold
    · simp [hrow]
    · simp [hrow]
  · rw [hkeys]
    split_ifs with hmem
    · exact h.distinct
    · exact List.nodup_append.mpr ⟨h.distinct, List.nodup_singleton _, by
        intro a ha b hb
        obtain rfl := List.mem_singleton.mp hb
        exact fun heq => hmem (heq ▸ ha)⟩
  · intro y hy
    rw [hkeys]
    rcases List.mem_append.mp hy with hy | hy
    · have hold := h.total y hy
      split_ifs
      · exact hold
      · exact List.mem_append_left _ hold
    · obtain rfl := List.mem_singleton.mp hy
      split_ifs with hmem
      · exact hmem
      · simp

/-- Collecting the members one after the other gives the groups. -/
theorem groups_groupsOf (key : α → K) (members : List α) :
    Groups key members (groupsOf key members) := by
  induction members using List.reverseRecOn with
  | nil => exact ⟨by simp [groupsOf], by simp [groupsOf], by simp [groupsOf], by simp⟩
  | append_singleton members x ih =>
    rw [groupsOf, List.foldl_concat]
    exact ih.addTo x

section Top

variable {key : α → K} {members : List α} {n : ℕ}

/-- The first `n` of the groups, ordered by their sizes. -/
theorem Groups.top {groups ordered : List (K × List α)} (h : Groups key members groups)
    (hperm : ordered.Perm groups) (hsorted : ordered.Pairwise fun g g' => g'.2.length ≤ g.2.length) :
    TopGroups key members n ((ordered.take n).map fun g => (g.1, g.2.length)) := by
  have hmem : ∀ g ∈ ordered, g.2.length = members.countP fun x => key x = g.1 := by
    intro g hg
    rw [h.rows g (hperm.subset hg), List.countP_eq_length_filter]
  have hdistinct : (ordered.map Prod.fst).Nodup := (hperm.map Prod.fst).nodup_iff.mpr h.distinct
  have hkeys : ((ordered.take n).map fun g => (g.1, g.2.length)).map Prod.fst =
      (ordered.take n).map Prod.fst := by
    rw [List.map_map]
    rfl
  constructor
  · intro entry hentry
    obtain ⟨g, hg, rfl⟩ := List.mem_map.mp hentry
    have hold := List.mem_of_mem_take hg
    exact ⟨hmem g hold, List.length_pos_iff.mpr (h.nonempty g (hperm.subset hold))⟩
  · rw [hkeys]
    exact hdistinct.sublist ((List.take_sublist n ordered).map _)
  · rw [List.pairwise_map]
    exact hsorted.sublist (List.take_sublist n ordered)
  · simp
  · intro x hx hcut
    rw [hkeys] at hcut
    obtain ⟨g, hg, hkey⟩ := List.mem_map.mp (h.total x hx)
    have hsplit := List.take_append_drop n ordered
    have hdrop : g ∈ ordered.drop n := by
      have hall := hperm.symm.subset hg
      rw [← hsplit] at hall
      apply (List.mem_append.mp hall).resolve_left
      intro htake
      exact hcut (hkey ▸ List.mem_map_of_mem htake)
    constructor
    · have hlong := List.length_pos_of_mem hdrop
      rw [List.length_drop] at hlong
      rw [List.length_map, List.length_take]
      omega
    · intro entry hentry
      obtain ⟨g', hg', rfl⟩ := List.mem_map.mp hentry
      rw [← hsplit] at hsorted
      have hle := (List.pairwise_append.mp hsorted).2.2 g' hg' g hdrop
      rw [← hkey, ← hmem g (List.mem_of_mem_drop hdrop)]
      exact hle

theorem sum_countP_keys {ks : List K} (h : ks.Nodup) :
    (ks.map fun k => members.countP fun x => key x = k).sum =
      members.countP fun x => key x ∈ ks := by
  induction ks with
  | nil => simp
  | cons k ks ih =>
    obtain ⟨hk, hks⟩ := List.nodup_cons.mp h
    rw [List.map_cons, List.sum_cons, ih hks]
    clear ih h hks
    induction members with
    | nil => rfl
    | cons x members ih =>
      simp only [List.countP_cons, List.mem_cons, decide_eq_true_eq]
      by_cases hx : key x = k
      · have hnot : key x ∉ ks := hx ▸ hk
        simp only [hx, hk, true_or, if_true, if_false]
        simp only [List.mem_cons] at ih
        omega
      · simp only [hx, false_or, if_false]
        simp only [List.mem_cons] at ih
        omega

/-- The sizes never add up to more than there is, and they add up to everything exactly if
every key is there. -/
theorem TopGroups.sum {top : List (K × ℕ)} (h : TopGroups key members n top) :
    (top.map Prod.snd).sum ≤ members.length ∧
      ((top.map Prod.snd).sum = members.length ↔ ∀ x ∈ members, key x ∈ top.map Prod.fst) := by
  have hsum : (top.map Prod.snd).sum = members.countP fun x => key x ∈ top.map Prod.fst := by
    rw [← sum_countP_keys h.distinct, List.map_map]
    congr 1
    apply List.map_congr_left
    intro g hg
    exact (h.counts g hg).1
  rw [hsum]
  refine ⟨List.countP_le_length, ?_⟩
  rw [List.countP_eq_length]
  simp only [decide_eq_true_eq]

end Top

end GroundedOps
