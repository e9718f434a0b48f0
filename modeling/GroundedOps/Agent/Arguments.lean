import GroundedOps.Python.CodePoints

/-!
# Arguments of a tool call

A JSON value whose strings are sequences of code points. Two of them are the same
document if they agree up to the order of the members of their objects, at every
depth. If no object has a key twice, that is equality of the forms with sorted
members.
-/

namespace GroundedOps.Agent

open Python

/-- A JSON value without floating point numbers. -/
inductive Argument
  | null
  | bool (b : Bool)
  | int (n : ℤ)
  | str (s : Str)
  | arr (items : List Argument)
  | obj (members : List (Str × Argument))

namespace Argument

mutual

/-- `json.dumps(value, sort_keys=sort)` -/
def dumps (sort : Bool) : Argument → Text
  | .null => "null".toList
  | .bool b => if b then "true".toList else "false".toList
  | .int n => strInt n
  | .str s => quoteStr s
  | .arr items => '[' :: join ", ".toList (dumpsItems sort items) ++ [']']
  | .obj members =>
    let written := dumpsMembers sort members
    let ordered := if sort then sortItems written else written
    '{' :: join ", ".toList (ordered.map fun p => quoteStr p.1 ++ ": ".toList ++ p.2) ++ ['}']

def dumpsItems (sort : Bool) : List Argument → List Text
  | [] => []
  | v :: items => dumps sort v :: dumpsItems sort items

def dumpsMembers (sort : Bool) : List (Str × Argument) → List (Str × Text)
  | [] => []
  | (k, v) :: members => (k, dumps sort v) :: dumpsMembers sort members

end

mutual

/-- The value with the members of all its objects sorted by key. -/
def canon : Argument → Argument
  | .null => .null
  | .bool b => .bool b
  | .int n => .int n
  | .str s => .str s
  | .arr items => .arr (canonItems items)
  | .obj members => .obj (sortItems (canonMembers members))

def canonItems : List Argument → List Argument
  | [] => []
  | v :: items => canon v :: canonItems items

def canonMembers : List (Str × Argument) → List (Str × Argument)
  | [] => []
  | (k, v) :: members => (k, canon v) :: canonMembers members

end

mutual

/-- No string of the value, key or not, has a high surrogate directly before a low one. -/
def Unpaired : Argument → Prop
  | .str s => Python.Unpaired s
  | .arr items => UnpairedItems items
  | .obj members => UnpairedMembers members
  | _ => True

def UnpairedItems : List Argument → Prop
  | [] => True
  | v :: items => Unpaired v ∧ UnpairedItems items

def UnpairedMembers : List (Str × Argument) → Prop
  | [] => True
  | (k, v) :: members => (Python.Unpaired k ∧ Unpaired v) ∧ UnpairedMembers members

end

/-- The same value up to the order of the members of every object. -/
inductive Same : Argument → Argument → Prop
  | null : Same .null .null
  | bool (b) : Same (.bool b) (.bool b)
  | int (n) : Same (.int n) (.int n)
  | str (s) : Same (.str s) (.str s)
  | arr {items others} : List.Forall₂ Same items others → Same (.arr items) (.arr others)
  | obj {members ms ns others : List (Str × Argument)} : members.Perm ms →
      ms.map Prod.fst = ns.map Prod.fst →
      List.Forall₂ Same (ms.map Prod.snd) (ns.map Prod.snd) → ns.Perm others →
      Same (.obj members) (.obj others)

mutual

/-- No object has two members with one key. -/
def DistinctKeys : Argument → Prop
  | .arr items => DistinctKeysItems items
  | .obj members => (members.map Prod.fst).Nodup ∧ DistinctKeysMembers members
  | _ => True

def DistinctKeysItems : List Argument → Prop
  | [] => True
  | v :: items => DistinctKeys v ∧ DistinctKeysItems items

def DistinctKeysMembers : List (Str × Argument) → Prop
  | [] => True
  | (_, v) :: members => DistinctKeys v ∧ DistinctKeysMembers members

end

theorem distinctKeysItems_iff {items : List Argument} :
    DistinctKeysItems items ↔ ∀ v ∈ items, DistinctKeys v := by
  induction items with
  | nil => simp [DistinctKeysItems]
  | cons v items ih => simp [DistinctKeysItems, ih]

theorem distinctKeysMembers_iff {members : List (Str × Argument)} :
    DistinctKeysMembers members ↔ ∀ p ∈ members, DistinctKeys p.2 := by
  induction members with
  | nil => simp [DistinctKeysMembers]
  | cons p members ih => simp [DistinctKeysMembers, ih]

theorem unpairedItems_iff {items : List Argument} :
    UnpairedItems items ↔ ∀ v ∈ items, Unpaired v := by
  induction items with
  | nil => simp [UnpairedItems]
  | cons v items ih => simp [UnpairedItems, ih]

theorem unpairedMembers_iff {members : List (Str × Argument)} :
    UnpairedMembers members ↔ ∀ p ∈ members, Python.Unpaired p.1 ∧ Unpaired p.2 := by
  induction members with
  | nil => simp [UnpairedMembers]
  | cons p members ih => simp [UnpairedMembers, ih]

theorem dumpsMembers_eq_map (sort : Bool) (members : List (Str × Argument)) :
    dumpsMembers sort members = members.map fun p => (p.1, dumps sort p.2) := by
  induction members with
  | nil => rfl
  | cons p members ih => rw [dumpsMembers, ih, List.map_cons]

theorem canonItems_eq_map (items : List Argument) : canonItems items = items.map canon := by
  induction items with
  | nil => rfl
  | cons v items ih => rw [canonItems, ih, List.map_cons]

theorem canonMembers_eq_map (members : List (Str × Argument)) :
    canonMembers members = members.map fun p => (p.1, canon p.2) := by
  induction members with
  | nil => rfl
  | cons p members ih => rw [canonMembers, ih, List.map_cons]

theorem canon_obj (members : List (Str × Argument)) :
    canon (.obj members) = .obj ((sortItems members).map fun p => (p.1, canon p.2)) := by
  rw [canon, canonMembers_eq_map, sortItems_map_snd]

mutual

/-- Sorting while writing and writing the sorted form are the same. -/
theorem dumps_canon (v : Argument) : dumps false (canon v) = dumps true v := by
  cases v with
  | arr items => simp only [canon, dumps, dumpsItems_canon items]
  | obj members =>
    have hmembers : sortItems (dumpsMembers true members) =
        dumpsMembers false (sortItems (canonMembers members)) := by
      rw [← dumpsMembers_canon members, dumpsMembers_eq_map, sortItems_map_snd,
        dumpsMembers_eq_map]
    simp [canon, dumps, hmembers]
  | _ => rfl

theorem dumpsItems_canon (items : List Argument) :
    dumpsItems false (canonItems items) = dumpsItems true items := by
  cases items with
  | nil => rfl
  | cons v items => simp only [canonItems, dumpsItems, dumps_canon v, dumpsItems_canon items]

theorem dumpsMembers_canon (members : List (Str × Argument)) :
    dumpsMembers false (canonMembers members) = dumpsMembers true members := by
  cases members with
  | nil => rfl
  | cons p members =>
    simp only [canonMembers, dumpsMembers, dumps_canon p.2, dumpsMembers_canon members]

end

section Lists

variable {α β : Type} {R : α → α → Prop} {f : α → β} {s t : List α}

theorem forall₂_of_map_eq (hs : ∀ a ∈ s, ∀ b, f a = f b → R a b) (h : s.map f = t.map f) :
    List.Forall₂ R s t := by
  induction s generalizing t with
  | nil =>
    rw [List.map_nil, eq_comm, List.map_eq_nil_iff] at h
    rw [h]
    exact .nil
  | cons a s ih =>
    cases t with
    | nil => cases h
    | cons b t =>
      rw [List.map_cons, List.map_cons, List.cons.injEq] at h
      exact .cons (hs a (by simp) b h.1) (ih (fun c hc => hs c (by simp [hc])) h.2)

theorem map_eq_of_forall₂ (hs : ∀ a ∈ s, ∀ b ∈ t, R a b → f a = f b) (h : List.Forall₂ R s t) :
    s.map f = t.map f := by
  induction h with
  | nil => rfl
  | cons hab _ ih =>
    rw [List.map_cons, List.map_cons, hs _ (by simp) _ (by simp) hab,
      ih fun c hc d hd => hs c (by simp [hc]) d (by simp [hd])]

end Lists

mutual

theorem same_of_canon_eq (v w : Argument) (h : canon v = canon w) : Same v w := by
  cases v with
  | arr items =>
    cases w with
    | arr others =>
      rw [canon, canon, canonItems_eq_map, canonItems_eq_map, arr.injEq] at h
      exact .arr (forall₂_of_map_eq (same_items items) h)
    | _ => cases h
  | obj members =>
    cases w with
    | obj others =>
      rw [canon_obj, canon_obj, obj.injEq] at h
      have hkeys := congrArg (List.map Prod.fst) h
      have hvalues := congrArg (List.map Prod.snd) h
      simp only [List.map_map, Function.comp_def] at hkeys hvalues
      refine .obj (perm_sortItems members).symm hkeys ?_ (perm_sortItems others)
      apply forall₂_of_map_eq (f := canon)
      · intro v hv w
        obtain ⟨p, hp, rfl⟩ := List.mem_map.mp hv
        exact same_members members p ((perm_sortItems members).mem_iff.mp hp) w
      · simpa only [List.map_map, Function.comp_def] using hvalues
    | _ => cases h
  | _ =>
    cases w with
    | _ => cases h <;> constructor

theorem same_items (items : List Argument) : ∀ v ∈ items, ∀ w, canon v = canon w → Same v w := by
  cases items with
  | nil => simp
  | cons v items =>
    rw [List.forall_mem_cons]
    exact ⟨same_of_canon_eq v, same_items items⟩

theorem same_members (members : List (Str × Argument)) :
    ∀ p ∈ members, ∀ w, canon p.2 = canon w → Same p.2 w := by
  cases members with
  | nil => simp
  | cons p members =>
    rw [List.forall_mem_cons]
    exact ⟨same_of_canon_eq p.2, same_members members⟩

end

mutual

theorem canon_eq_of_same (v w : Argument) (hv : DistinctKeys v) (hw : DistinctKeys w)
    (h : Same v w) : canon v = canon w := by
  cases h with
  | @arr items others h =>
    have hitems := distinctKeysItems_iff.mp hv
    have hothers := distinctKeysItems_iff.mp hw
    rw [canon, canon, canonItems_eq_map, canonItems_eq_map, map_eq_of_forall₂ _ h]
    exact fun a ha b hb => canon_items items a ha b (hitems a ha) (hothers b hb)
  | @obj members ms ns others hperm hkeys hvalues hperm' =>
    have hmembers := distinctKeysMembers_iff.mp hv.2
    have hothers := distinctKeysMembers_iff.mp hw.2
    have hforms : (ms.map Prod.snd).map canon = (ns.map Prod.snd).map canon := by
      apply map_eq_of_forall₂ _ hvalues
      intro a ha b hb
      obtain ⟨p, hp, rfl⟩ := List.mem_map.mp ha
      obtain ⟨q, hq, rfl⟩ := List.mem_map.mp hb
      have hp' := hperm.mem_iff.mpr hp
      exact canon_members members p hp' q.2 (hmembers p hp') (hothers q (hperm'.mem_iff.mp hq))
    have hcanon : ms.map (fun p => (p.1, canon p.2)) = ns.map (fun p => (p.1, canon p.2)) := by
      rw [List.map_map, List.map_map] at hforms
      have hzip := congrArg₂ List.zip hkeys hforms
      rwa [List.zip_map', List.zip_map'] at hzip
    have hsorted : sortItems (members.map fun p => (p.1, canon p.2)) =
        sortItems (others.map fun p => (p.1, canon p.2)) := by
      apply sortItems_eq_of_perm
      · have hms := hperm.map fun p => (p.1, canon p.2)
        have hns := hperm'.map fun p => (p.1, canon p.2)
        rw [hcanon] at hms
        exact hms.trans hns
      · simpa [Function.comp_def] using hv.1
    rw [canon, canon, canonMembers_eq_map, canonMembers_eq_map, hsorted]
  | _ => rfl

theorem canon_items (items : List Argument) : ∀ v ∈ items, ∀ w, DistinctKeys v →
    DistinctKeys w → Same v w → canon v = canon w := by
  cases items with
  | nil => simp
  | cons v items =>
    rw [List.forall_mem_cons]
    exact ⟨canon_eq_of_same v, canon_items items⟩

theorem canon_members (members : List (Str × Argument)) : ∀ p ∈ members, ∀ w,
    DistinctKeys p.2 → DistinctKeys w → Same p.2 w → canon p.2 = canon w := by
  cases members with
  | nil => simp
  | cons p members =>
    rw [List.forall_mem_cons]
    exact ⟨canon_eq_of_same p.2, canon_members members⟩

end

/-- Without repeated keys, documents are the same if their sorted forms are equal. -/
theorem same_iff_canon_eq {v w : Argument} (hv : DistinctKeys v) (hw : DistinctKeys w) :
    Same v w ↔ canon v = canon w :=
  ⟨canon_eq_of_same v w hv hw, same_of_canon_eq v w⟩

end Argument

end GroundedOps.Agent
