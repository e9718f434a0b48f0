import Mathlib.Data.List.Basic
import Mathlib.Tactic

/-!
# Words that can be read off the front of a text

Two words are apart if neither can stand in the place of the other, as long as
what follows is empty or starts with a stop symbol. Sequences of words that are
pairwise apart are read back word by word, up to a stop symbol that closes them.
-/

namespace GroundedOps.Delimited

variable {α β : Type*}

/-- Nothing follows, or a stop symbol does. -/
def Stops (stop : β → Prop) (rest : List β) : Prop := ∀ c ∈ rest.head?, stop c

theorem stops_nil {stop : β → Prop} : Stops stop [] := by
  intro c hc
  cases hc

theorem stops_cons {stop : β → Prop} {c : β} {rest : List β} :
    Stops stop (c :: rest) ↔ stop c := by
  simp [Stops]

def Apart (stop : β → Prop) (code : α → List β) (a b : α) : Prop :=
  ∀ x y, Stops stop x → Stops stop y → code a ++ x = code b ++ y → a = b ∧ x = y

/-- The word starts with a symbol of the kind, other than the one that closes a sequence. -/
def Opens (kind : β → Prop) (code : α → List β) (close : β) (a : α) : Prop :=
  ∃ c w, code a = c :: w ∧ kind c ∧ c ≠ close

variable {stop kind : β → Prop} {code : α → List β} {close : β}

/-- Words with a reader are apart, whatever follows. -/
theorem apart_of_read {read : List β → Option (α × List β)}
    (hread : ∀ a x, read (code a ++ x) = some (a, x)) (a b : α) : Apart stop code a b := by
  intro x y _ _ h
  have hsome : some (a, x) = some (b, y) := by rw [← hread a x, h, hread b y]
  simpa using hsome

theorem Opens.ne {a : α} (h : Opens kind code close a) (x y : List β) :
    code a ++ x ≠ close :: y := by
  intro heq
  obtain ⟨c, w, hw, -, hne⟩ := h
  rw [hw, List.cons_append, List.cons.injEq] at heq
  exact hne heq.1

theorem stops_flatMap {s : List α} (hs : ∀ a ∈ s, Opens stop code close a) (hclose : stop close)
    (x : List β) : Stops stop (s.flatMap code ++ close :: x) := by
  cases s with
  | nil => exact stops_cons.mpr hclose
  | cons a s =>
    obtain ⟨c, w, hw, hc, -⟩ := hs a (by simp)
    rw [List.flatMap_cons, hw]
    exact stops_cons.mpr hc

/-- Adjacent words are read back if each of them starts with a stop symbol. -/
theorem flatMap_inj {s t : List α} {x y : List β} (hs : ∀ a ∈ s, Opens stop code close a)
    (ht : ∀ b ∈ t, Opens stop code close b) (hclose : stop close)
    (hcode : ∀ a ∈ s, ∀ b ∈ t, Apart stop code a b)
    (h : s.flatMap code ++ close :: x = t.flatMap code ++ close :: y) : s = t ∧ x = y := by
  induction s generalizing t with
  | nil =>
    cases t with
    | nil => simpa using h
    | cons b t =>
      rw [List.flatMap_cons, List.append_assoc] at h
      exact absurd h.symm ((ht b (by simp)).ne _ x)
  | cons a s ih =>
    cases t with
    | nil =>
      rw [List.flatMap_cons, List.append_assoc] at h
      exact absurd h ((hs a (by simp)).ne _ y)
    | cons b t =>
      have hs' : ∀ c ∈ s, Opens stop code close c := fun c hc => hs c (by simp [hc])
      have ht' : ∀ c ∈ t, Opens stop code close c := fun c hc => ht c (by simp [hc])
      rw [List.flatMap_cons, List.flatMap_cons, List.append_assoc, List.append_assoc] at h
      obtain ⟨rfl, htail⟩ := hcode a (by simp) b (by simp) _ _ (stops_flatMap hs' hclose x)
        (stops_flatMap ht' hclose y) h
      obtain ⟨rfl, hxy⟩ := ih hs' ht' (fun c hc d hd => hcode c (by simp [hc]) d (by simp [hd]))
        htail
      exact ⟨rfl, hxy⟩

theorem intercalate_cons (sep : List β) (a : α) (s : List α) :
    sep.intercalate ((a :: s).map code) = code a ++ s.flatMap fun b => sep ++ code b := by
  induction s generalizing a with
  | nil => simp
  | cons b s ih =>
    have htail := ih b
    rw [List.map_cons] at htail
    rw [List.map_cons, List.map_cons, List.intercalate_cons_cons, htail, List.flatMap_cons,
      List.append_assoc, List.append_assoc]

theorem Apart.separated {a b : α} (sep : List β) (h : Apart stop code a b) :
    Apart stop (fun c => sep ++ code c) a b := by
  intro x y hx hy heq
  rw [List.append_assoc, List.append_assoc] at heq
  exact h x y hx hy (List.append_cancel_left heq)

/-- Separated words are read back if the separator starts with a stop symbol. -/
theorem intercalate_inj {sep : β} {sepRest : List β} {s t : List α} {x y : List β}
    (hsep : stop sep) (hclose : stop close) (hne : sep ≠ close)
    (hs : ∀ a ∈ s, Opens kind code close a) (ht : ∀ b ∈ t, Opens kind code close b)
    (hcode : ∀ a ∈ s, ∀ b ∈ t, Apart stop code a b)
    (h : (sep :: sepRest).intercalate (s.map code) ++ close :: x =
      (sep :: sepRest).intercalate (t.map code) ++ close :: y) : s = t ∧ x = y := by
  have hopens : ∀ c, Opens stop (fun b => sep :: sepRest ++ code b) close c :=
    fun c => ⟨sep, sepRest ++ code c, rfl, hsep, hne⟩
  cases s with
  | nil =>
    cases t with
    | nil => simpa using h
    | cons b t =>
      rw [intercalate_cons, List.append_assoc] at h
      exact absurd h.symm ((ht b (by simp)).ne _ x)
  | cons a s =>
    cases t with
    | nil =>
      rw [intercalate_cons, List.append_assoc] at h
      exact absurd h ((hs a (by simp)).ne _ y)
    | cons b t =>
      rw [intercalate_cons, intercalate_cons, List.append_assoc, List.append_assoc] at h
      obtain ⟨rfl, htail⟩ := hcode a (by simp) b (by simp) _ _
        (stops_flatMap (fun c _ => hopens c) hclose x)
        (stops_flatMap (fun c _ => hopens c) hclose y) h
      obtain ⟨rfl, hxy⟩ := flatMap_inj (fun c _ => hopens c) (fun c _ => hopens c) hclose
        (fun c hc d hd => (hcode c (by simp [hc]) d (by simp [hd])).separated _) htail
      exact ⟨rfl, hxy⟩

end GroundedOps.Delimited
