import GroundedOps.Agent.Arguments
import GroundedOps.Python.JsonQuotes

/-!
# Reading written arguments back

Arguments are written unambiguously: a text that continues with nothing, a comma or
a closing bracket determines the value at its front. The text of an object behind
two colons determines where it starts.
-/

namespace GroundedOps.Agent

open Python Delimited

namespace Argument

/-! ### The first character -/

/-- The form of a value, which the first character of its text shows. -/
def form : Argument → ℕ
  | .null => 0
  | .bool true => 1
  | .bool false => 2
  | .int _ => 3
  | .str _ => 4
  | .arr _ => 5
  | .obj _ => 6

def formOfChar (c : Char) : ℕ :=
  if c = 'n' then 0
  else if c = 't' then 1
  else if c = 'f' then 2
  else if c = '"' then 4
  else if c = '[' then 5
  else if c = '{' then 6
  else if c = ']' then 8
  else 3

theorem formOfChar_digit {c : Char} (h : c.isDigit = true) : formOfChar c = 3 := by
  unfold formOfChar
  split_ifs with h0 h1 h2 h4 h5 h6 h8
  on_goal 8 => rfl
  all_goals subst c; exact absurd h (by decide)

theorem dumps_head (v : Argument) : ∃ c w, dumps false v = c :: w ∧ formOfChar c = form v := by
  cases v with
  | null => exact ⟨'n', _, rfl, rfl⟩
  | bool b =>
    cases b with
    | true => exact ⟨'t', _, rfl, rfl⟩
    | false => exact ⟨'f', _, rfl, rfl⟩
  | int n =>
    obtain ⟨c, w, hw, hc⟩ := str_opens n.natAbs
    by_cases hn : n < 0
    · exact ⟨'-', Python.str n.natAbs, by rw [dumps, strInt, if_pos hn], rfl⟩
    · exact ⟨c, w, by rw [dumps, strInt, if_neg hn, hw], formOfChar_digit hc⟩
  | str s => exact ⟨'"', _, rfl, rfl⟩
  | arr items => exact ⟨'[', _, rfl, rfl⟩
  | obj members => exact ⟨'{', _, rfl, rfl⟩

theorem form_lt (v : Argument) : form v < 8 := by
  cases v with
  | bool b => cases b <;> simp [form]
  | _ => simp [form]

theorem dumps_opens (v : Argument) : Opens (fun _ => True) (dumps false) ']' v := by
  obtain ⟨c, w, hw, hc⟩ := dumps_head v
  refine ⟨c, w, hw, trivial, ?_⟩
  rintro rfl
  have hlt := form_lt v
  rw [← hc] at hlt
  exact absurd hlt (by decide)

theorem form_eq {v w : Argument} {x y : Text}
    (h : dumps false v ++ x = dumps false w ++ y) : form v = form w := by
  obtain ⟨c, s, hs, hc⟩ := dumps_head v
  obtain ⟨d, t, ht, hd⟩ := dumps_head w
  rw [hs, ht, List.cons_append, List.cons_append, List.cons.injEq] at h
  rw [← hc, ← hd, h.1]

/-- One member of an object, as written. -/
def memberText (p : Str × Argument) : Text := quoteStr p.1 ++ ": ".toList ++ dumps false p.2

theorem memberText_opens (p : Str × Argument) : Opens (fun _ => True) memberText '}' p :=
  ⟨'"', _, rfl, trivial, by decide⟩

theorem memberText_apart {p q : Str × Argument} (hp : Python.Unpaired p.1)
    (hq : Python.Unpaired q.1) (h : Apart EndsValue (dumps false) p.2 q.2) :
    Apart EndsValue memberText p q := by
  intro x y hx hy heq
  simp only [memberText, List.append_assoc] at heq
  obtain ⟨hkey, htail⟩ := quoteStr_inj hp hq heq
  obtain ⟨hvalue, hxy⟩ := h x y hx hy (List.append_cancel_left htail)
  exact ⟨Prod.ext hkey hvalue, hxy⟩

theorem dumps_arr (items : List Argument) : dumps false (.arr items) =
    '[' :: [',', ' '].intercalate (items.map (dumps false)) ++ [']'] := by
  have hitems : ∀ items : List Argument, dumpsItems false items = items.map (dumps false) := by
    intro items
    induction items with
    | nil => rfl
    | cons v items ih => rw [dumpsItems, ih, List.map_cons]
  rw [dumps, hitems]
  rfl

theorem dumps_obj (members : List (Str × Argument)) : dumps false (.obj members) =
    '{' :: [',', ' '].intercalate (members.map memberText) ++ ['}'] := by
  rw [dumps, dumpsMembers_eq_map]
  simp only [Bool.false_eq_true, if_false, List.map_map]
  rfl

mutual

/-- Values that are written alike are alike. -/
theorem dumps_apart (v w : Argument) (hv : Unpaired v) (hw : Unpaired w) :
    Apart EndsValue (dumps false) v w := by
  intro x y hx hy h
  have hform := form_eq h
  cases v with
  | null =>
    cases w with
    | null => exact ⟨rfl, List.append_cancel_left h⟩
    | bool b => cases b <;> cases hform
    | _ => cases hform
  | bool a =>
    cases w with
    | bool b =>
      obtain rfl : a = b := by cases a <;> cases b <;> first | rfl | cases hform
      exact ⟨rfl, List.append_cancel_left h⟩
    | _ => cases a <;> cases hform
  | int m =>
    cases w with
    | int n =>
      obtain ⟨rfl, hxy⟩ := strInt_apart m n x y hx hy h
      exact ⟨rfl, hxy⟩
    | bool b => cases b <;> cases hform
    | _ => cases hform
  | str s =>
    cases w with
    | str t =>
      obtain ⟨rfl, hxy⟩ := quoteStr_inj hv hw h
      exact ⟨rfl, hxy⟩
    | bool b => cases b <;> cases hform
    | _ => cases hform
  | arr items =>
    cases w with
    | arr others =>
      have hitems := unpairedItems_iff.mp hv
      have hothers := unpairedItems_iff.mp hw
      rw [dumps_arr, dumps_arr] at h
      simp only [List.cons_append, List.append_assoc, List.cons.injEq, true_and,
        List.nil_append] at h
      obtain ⟨rfl, hxy⟩ := intercalate_inj (show EndsValue ',' by simp [EndsValue])
        (by simp [EndsValue]) (by decide) (fun a _ => dumps_opens a)
        (fun b _ => dumps_opens b)
        (fun a ha b hb => items_apart items a ha b (hitems a ha) (hothers b hb)) h
      exact ⟨rfl, hxy⟩
    | bool b => cases b <;> cases hform
    | _ => cases hform
  | obj members =>
    cases w with
    | obj others =>
      have hmembers := unpairedMembers_iff.mp hv
      have hothers := unpairedMembers_iff.mp hw
      rw [dumps_obj, dumps_obj] at h
      simp only [List.cons_append, List.append_assoc, List.cons.injEq, true_and,
        List.nil_append] at h
      obtain ⟨rfl, hxy⟩ := intercalate_inj (show EndsValue ',' by simp [EndsValue])
        (by simp [EndsValue]) (by decide) (fun p _ => memberText_opens p)
        (fun p _ => memberText_opens p)
        (fun p hp q hq => memberText_apart (hmembers p hp).1 (hothers q hq).1
          (members_apart members p hp q.2 (hmembers p hp).2 (hothers q hq).2)) h
      exact ⟨rfl, hxy⟩
    | bool b => cases b <;> cases hform
    | _ => cases hform

theorem items_apart (items : List Argument) : ∀ v ∈ items, ∀ w, Unpaired v → Unpaired w →
    Apart EndsValue (dumps false) v w := by
  cases items with
  | nil => simp
  | cons v items =>
    rw [List.forall_mem_cons]
    exact ⟨dumps_apart v, items_apart items⟩

theorem members_apart (members : List (Str × Argument)) : ∀ p ∈ members, ∀ w, Unpaired p.2 →
    Unpaired w → Apart EndsValue (dumps false) p.2 w := by
  cases members with
  | nil => simp
  | cons p members =>
    rw [List.forall_mem_cons]
    exact ⟨dumps_apart p.2, members_apart members⟩

end

mutual

theorem unpaired_canon (v : Argument) (h : Unpaired v) : Unpaired (canon v) := by
  cases v with
  | arr items =>
    rw [canon, canonItems_eq_map, Unpaired, unpairedItems_iff]
    intro w hw
    obtain ⟨a, ha, rfl⟩ := List.mem_map.mp hw
    exact unpaired_items items a ha (unpairedItems_iff.mp h a ha)
  | obj members =>
    rw [canon_obj, Unpaired, unpairedMembers_iff]
    intro q hq
    obtain ⟨p, hp, rfl⟩ := List.mem_map.mp hq
    have hmem := (perm_sortItems members).mem_iff.mp hp
    have hp' := unpairedMembers_iff.mp h p hmem
    exact ⟨hp'.1, unpaired_members members p hmem hp'.2⟩
  | _ => exact h

theorem unpaired_items (items : List Argument) : ∀ v ∈ items, Unpaired v →
    Unpaired (canon v) := by
  cases items with
  | nil => simp
  | cons v items =>
    rw [List.forall_mem_cons]
    exact ⟨unpaired_canon v, unpaired_items items⟩

theorem unpaired_members (members : List (Str × Argument)) : ∀ p ∈ members, Unpaired p.2 →
    Unpaired (canon p.2) := by
  cases members with
  | nil => simp
  | cons p members =>
    rw [List.forall_mem_cons]
    exact ⟨unpaired_canon p.2, unpaired_members members⟩

end

/-- The sorted text of a value determines the value up to the order of members. -/
theorem canon_eq_of_dumps_eq {v w : Argument} (hv : Unpaired v) (hw : Unpaired w)
    (h : dumps true v = dumps true w) : canon v = canon w := by
  rw [← dumps_canon, ← dumps_canon] at h
  have hread := dumps_apart _ _ (unpaired_canon v hv) (unpaired_canon w hw) [] [] stops_nil
    stops_nil (by rw [List.append_nil, List.append_nil, h])
  exact hread.1


/-! ### Where the text of an object starts -/

open Lexer

mutual

/-- A written value closes all its literals. -/
theorem read_dumps (v : Argument) :
    outside.read (v.dumps false) = outside := by
  cases v with
  | null => rfl
  | bool b => cases b <;> rfl
  | int n => exact read_strInt n
  | str s => exact read_quoteStr s
  | arr items =>
    have hitems : outside.read ([',', ' '].intercalate (items.map (dumps false))) =
        outside := by
      apply read_intercalate
      intro p hp
      obtain ⟨v, hv, rfl⟩ := List.mem_map.mp hp
      exact read_items items v hv
    rw [dumps_arr, List.cons_append, read_cons, read_append]
    change (outside.read _).read _ = _
    rw [hitems]
    rfl
  | obj members =>
    have hmembers : outside.read ([',', ' '].intercalate (members.map (memberText))) =
        outside := by
      apply read_intercalate
      intro t ht
      obtain ⟨p, hp, rfl⟩ := List.mem_map.mp ht
      rw [memberText, read_append, read_append, read_quoteStr]
      exact read_members members p hp
    rw [dumps_obj, List.cons_append, read_cons, read_append]
    change (outside.read _).read _ = _
    rw [hmembers]
    rfl

theorem read_items (items : List Argument) : ∀ v ∈ items,
    outside.read (v.dumps false) = outside := by
  cases items with
  | nil => simp
  | cons v items =>
    rw [List.forall_mem_cons]
    exact ⟨read_dumps v, read_items items⟩

theorem read_members (members : List (Str × Argument)) : ∀ p ∈ members,
    outside.read (p.2.dumps false) = outside := by
  cases members with
  | nil => simp
  | cons p members =>
    rw [List.forall_mem_cons]
    exact ⟨read_dumps p.2, read_members members⟩

end

/-- A name, two colons and an object determine the name and the text of the object. -/
theorem split_object {m n : Str} {ms ns : List (Str × Argument)}
    (h : m ++ codes ("::".toList ++ (obj ms).dumps true) =
      n ++ codes ("::".toList ++ (obj ns).dumps true)) :
    m = n ∧ (obj ms).dumps true = (obj ns).dumps true := by
  have hclosed : ∀ members, outside.read ((obj members).dumps true) = outside := by
    intro members
    rw [← dumps_canon]
    exact read_dumps _
  have hhead : ∀ members, ((obj members).dumps true).head? ≠ some ':' := by
    intro members
    rw [← dumps_canon, canon_obj, dumps_obj]
    simp
  exact split_inj (hclosed ms) (hclosed ns) (hhead ms) (hhead ns) h

end Argument

end GroundedOps.Agent
