import Mathlib.Tactic

/-!
# Programs with a state and exceptions

Weakest preconditions of `EStateM` programs. The state survives an exception, so
a specification has a normal and an exceptional postcondition.
-/

namespace GroundedOps

universe u v

theorem bind_eq_ok {ε : Type v} {α β : Type u} {x : Except ε α} {f : α → Except ε β} {b : β} :
    x >>= f = .ok b ↔ ∃ a, x = .ok a ∧ f a = .ok b := by
  cases x with
  | error e => exact ⟨nofun, nofun⟩
  | ok a =>
    constructor
    · intro h
      exact ⟨a, rfl, h⟩
    · rintro ⟨c, hc, h⟩
      cases hc
      exact h

theorem exists_bind_ok {ε : Type v} {α β : Type u} {x : Except ε α} {f : α → Except ε β} :
    (∃ b, x >>= f = .ok b) ↔ ∃ a, x = .ok a ∧ ∃ b, f a = .ok b := by
  simp only [bind_eq_ok]
  exact ⟨fun ⟨b, a, ha, hb⟩ => ⟨a, ha, b, hb⟩, fun ⟨a, ha, b, hb⟩ => ⟨b, a, ha, hb⟩⟩

/-- The rest succeeds or fails whatever the first part returns. -/
theorem exists_bind_ok_iff {ε : Type v} {α β : Type u} {x : Except ε α} {f : α → Except ε β}
    {P Q : Prop} (hx : (∃ a, x = .ok a) ↔ P) (hf : ∀ a, (∃ b, f a = .ok b) ↔ Q) :
    (∃ b, x >>= f = .ok b) ↔ P ∧ Q := by
  rw [exists_bind_ok, ← hx]
  simp only [hf, exists_and_right]

theorem exists_pure_ok {ε : Type v} {α : Type u} (a : α) :
    (∃ b, (pure a : Except ε α) = .ok b) ↔ True := iff_of_true ⟨a, rfl⟩ trivial

/-- What is known of a result once it has been computed. -/
theorem exists_ok_of_map {ε : Type v} {α β : Type u} {x : Except ε α} {f : α → β} {b : β}
    (h : x.toOption.map f = some b) : ∃ a, x = .ok a ∧ f a = b := by
  cases x with
  | error e => cases h
  | ok a => exact ⟨a, rfl, Option.some.inj h⟩

theorem exists_ok_of_isSome {ε : Type v} {α : Type u} {x : Except ε α}
    (h : x.toOption.isSome = true) : ∃ a, x = .ok a := by
  cases x with
  | error e => cases h
  | ok a => exact ⟨a, rfl⟩

theorem mapM_eq_ok {ε α β : Type*} {f : α → Except ε β} {l : List α} {u : List β} :
    l.mapM f = .ok u ↔ List.Forall₂ (fun a b => f a = .ok b) l u := by
  induction l generalizing u with
  | nil =>
    rw [List.mapM_nil, List.forall₂_nil_left_iff]
    exact ⟨fun h => (Except.ok.inj h).symm, fun h => h ▸ rfl⟩
  | cons a l ih =>
    rw [List.mapM_cons, bind_eq_ok, List.forall₂_cons_left_iff]
    constructor
    · rintro ⟨b, hb, h⟩
      rw [bind_eq_ok] at h
      obtain ⟨u, hu, h⟩ := h
      cases h
      exact ⟨b, u, hb, ih.mp hu, rfl⟩
    · rintro ⟨b, u, hb, hu, rfl⟩
      rw [ih.mpr hu]
      exact ⟨b, hb, rfl⟩

theorem mapM_congr {ε α β : Type*} {f g : α → Except ε β} {l : List α} (h : ∀ a ∈ l, f a = g a) :
    l.mapM f = l.mapM g := by
  induction l with
  | nil => rfl
  | cons a l ih =>
    obtain ⟨ha, hl⟩ := List.forall_mem_cons.mp h
    rw [List.mapM_cons, List.mapM_cons, ha, ih hl]

theorem mapM_ok_map {ε α β : Type*} {f : α → Except ε β} {g : α → β} {l : List α}
    (h : ∀ a ∈ l, f a = .ok (g a)) : l.mapM f = .ok (l.map g) := by
  rw [mapM_eq_ok, List.forall₂_map_right_iff, List.forall₂_same]
  exact h

theorem exists_mapM_ok {ε α β : Type*} {f : α → Except ε β} {l : List α} :
    (∃ u, l.mapM f = .ok u) ↔ ∀ a ∈ l, ∃ b, f a = .ok b := by
  induction l with
  | nil => exact ⟨fun _ _ h => absurd h List.not_mem_nil, fun _ => ⟨[], rfl⟩⟩
  | cons a l ih =>
    rw [List.forall_mem_cons, ← ih]
    constructor
    · rintro ⟨u, hu⟩
      rw [mapM_eq_ok, List.forall₂_cons_left_iff] at hu
      obtain ⟨b, u, hb, hu, rfl⟩ := hu
      exact ⟨⟨b, hb⟩, u, mapM_eq_ok.mpr hu⟩
    · rintro ⟨⟨b, hb⟩, u, hu⟩
      exact ⟨b :: u, mapM_eq_ok.mpr (.cons hb (mapM_eq_ok.mp hu))⟩

namespace Program

variable {ε σ α β : Type}

/-! ### Execution -/

@[simp] theorem run_pure (a : α) (s : σ) : (pure a : EStateM ε σ α) s = .ok a s := rfl

@[simp] theorem run_throw (e : ε) (s : σ) : (throw e : EStateM ε σ α) s = .error e s := rfl

@[simp] theorem run_set (s t : σ) : (set t : EStateM ε σ PUnit) s = .ok ⟨⟩ t := rfl

@[simp] theorem run_get_bind (f : σ → EStateM ε σ β) (s : σ) :
    ((get : EStateM ε σ σ) >>= f) s = f s s := rfl

@[simp] theorem run_set_bind (t : σ) (f : PUnit → EStateM ε σ β) (s : σ) :
    ((set t : EStateM ε σ PUnit) >>= f) s = f ⟨⟩ t := rfl

theorem run_bind_ok {p : EStateM ε σ α} {s s' : σ} {a : α} (h : p s = .ok a s')
    (f : α → EStateM ε σ β) : (p >>= f) s = f a s' := by
  simp only [bind, EStateM.bind, h]

@[simp] theorem run_map_set (f : PUnit → β) (s t : σ) :
    (f <$> (set t : EStateM ε σ PUnit)) s = .ok (f ⟨⟩) t := rfl

theorem run_bind_error {p : EStateM ε σ α} {s s' : σ} {e : ε} (h : p s = .error e s')
    (f : α → EStateM ε σ β) : (p >>= f) s = .error e s' := by
  simp only [bind, EStateM.bind, h]

theorem run_bind_eq_ok {p : EStateM ε σ α} {f : α → EStateM ε σ β} {s s'' : σ} {b : β} :
    (p >>= f) s = .ok b s'' ↔ ∃ a s', p s = .ok a s' ∧ f a s' = .ok b s'' := by
  simp only [bind, EStateM.bind]
  cases p s <;> simp

/-- The state a program ends in, whether it returns or raises. -/
def final : EStateM.Result ε σ α → σ
  | .ok _ s => s
  | .error _ s => s

/-- Whether the program returns, with a value and a state that pass the test. -/
def returnsWith (p : α → σ → Bool) : EStateM.Result ε σ α → Bool
  | .ok a s => p a s
  | .error _ _ => false

theorem exists_of_returnsWith {p : α → σ → Bool} {r : EStateM.Result ε σ α}
    (h : returnsWith p r = true) : ∃ a s, r = .ok a s ∧ p a s = true := by
  cases r with
  | ok a s => exact ⟨a, s, rfl, h⟩
  | error e s => cases h

/-- Changing the value it returns changes nothing about the state. -/
theorem final_bind_pure (p : EStateM ε σ α) (f : α → β) (s : σ) :
    final ((p >>= fun a => pure (f a)) s) = final (p s) := by
  simp only [bind, EStateM.bind]
  cases p s <;> rfl

/-! ### Weakest preconditions -/

/-- From `s` the program returns into `Q` or raises into `E`. -/
def wp (p : EStateM ε σ α) (Q : α → σ → Prop) (E : ε → σ → Prop) (s : σ) : Prop :=
  match p s with
  | .ok a s' => Q a s'
  | .error e s' => E e s'

variable {Q : α → σ → Prop} {E : ε → σ → Prop} {s : σ}

@[simp] theorem wp_pure (a : α) : wp (pure a : EStateM ε σ α) Q E s ↔ Q a s := Iff.rfl

@[simp] theorem wp_throw (e : ε) : wp (throw e : EStateM ε σ α) Q E s ↔ E e s := Iff.rfl

@[simp] theorem wp_get {Q : σ → σ → Prop} : wp (get : EStateM ε σ σ) Q E s ↔ Q s s := Iff.rfl

@[simp] theorem wp_modify {Q : PUnit → σ → Prop} (f : σ → σ) :
    wp (modify f : EStateM ε σ PUnit) Q E s ↔ Q ⟨⟩ (f s) := Iff.rfl

@[simp] theorem wp_bind (p : EStateM ε σ α) (f : α → EStateM ε σ β) {Q : β → σ → Prop} :
    wp (p >>= f) Q E s ↔ wp p (fun a s' => wp (f a) Q E s') E s := by
  simp only [wp, bind, EStateM.bind]
  cases p s <;> rfl

theorem wp_mono {p : EStateM ε σ α} {Q' : α → σ → Prop} {E' : ε → σ → Prop} (h : wp p Q E s)
    (hQ : ∀ a s', Q a s' → Q' a s') (hE : ∀ e s', E e s' → E' e s') : wp p Q' E' s := by
  unfold wp at h ⊢
  split at h
  · exact hQ _ _ h
  · exact hE _ _ h

/-- Loop rule: the invariant speaks of the part of the list already processed. -/
theorem wp_forM {f : α → EStateM ε σ PUnit} {l : List α} (I : List α → σ → Prop)
    (hstep : ∀ done a todo s, l = done ++ a :: todo → I done s →
      wp (f a) (fun _ s' => I (done ++ [a]) s') E s)
    (h : I [] s) : wp (forM l f) (fun _ s' => I l s') E s := by
  suffices hgen : ∀ done todo s, l = done ++ todo → I done s →
      wp (forM todo f) (fun _ s' => I l s') E s from hgen [] l s rfl h
  intro done todo
  induction todo generalizing done with
  | nil =>
    rintro s rfl hI
    simpa using hI
  | cons a todo ih =>
    intro s hl hI
    rw [List.forM_cons, wp_bind]
    refine wp_mono (hstep done a todo s hl hI) (fun _ s' hs' => ?_) fun _ _ he => he
    exact ih (done ++ [a]) s' (by simp [hl]) hs'

/-- What a program guarantees about the result it actually has. -/
theorem wp_iff {p : EStateM ε σ α} :
    wp p Q E s ↔ (∀ a s', p s = .ok a s' → Q a s') ∧ ∀ e s', p s = .error e s' → E e s' := by
  unfold wp
  cases p s <;> simp

/-! ### Invariants -/

/-- From a state with the property the program reaches only such states, whether it
returns or raises. -/
def Keeps (I : σ → Prop) (p : EStateM ε σ α) : Prop :=
  ∀ s, I s → wp p (fun _ s' => I s') (fun _ s' => I s') s

variable {I : σ → Prop}

theorem keeps_pure (a : α) : Keeps I (pure a : EStateM ε σ α) := fun _ h => h

theorem keeps_throw (e : ε) : Keeps I (throw e : EStateM ε σ α) := fun _ h => h

theorem keeps_get : Keeps I (get : EStateM ε σ σ) := fun _ h => h

theorem keeps_modify {f : σ → σ} (h : ∀ s, I s → I (f s)) :
    Keeps I (modify f : EStateM ε σ PUnit) := h

theorem keeps_bind {p : EStateM ε σ α} {f : α → EStateM ε σ β} (hp : Keeps I p)
    (hf : ∀ a, Keeps I (f a)) : Keeps I (p >>= f) := by
  intro s hs
  rw [wp_bind]
  exact wp_mono (hp s hs) (fun a s' hs' => hf a s' hs') fun _ _ h => h

theorem keeps_forM {f : α → EStateM ε σ PUnit} {l : List α} (h : ∀ a ∈ l, Keeps I (f a)) :
    Keeps I (forM l f) := by
  intro s hs
  apply wp_forM (fun _ s' => I s') _ hs
  rintro _ a _ s' rfl hs'
  exact h a (by simp) s' hs'

/-! ### Results -/

/-- From every state the program returns, and a value with the property. -/
def Yields (P : α → Prop) (p : EStateM ε σ α) : Prop :=
  ∀ s, wp p (fun a _ => P a) (fun _ _ => False) s

variable {P : α → Prop}

theorem yields_pure {a : α} (h : P a) : Yields P (pure a : EStateM ε σ α) := fun _ => h

theorem yields_bind {p : EStateM ε σ α} {f : α → EStateM ε σ β} {P' : β → Prop}
    (hp : Yields P p) (hf : ∀ a, P a → Yields P' (f a)) : Yields P' (p >>= f) := by
  intro s
  rw [wp_bind]
  exact wp_mono (hp s) (fun a s' ha => hf a ha s') fun _ _ h => h

/-- From every state the program returns. -/
def Returns (p : EStateM ε σ α) : Prop := Yields (fun _ => True) p

theorem Yields.returns {p : EStateM ε σ α} (h : Yields P p) : Returns p :=
  fun s => wp_mono (h s) (fun _ _ _ => trivial) fun _ _ h => h

theorem returns_pure (a : α) : Returns (pure a : EStateM ε σ α) := fun _ => trivial

theorem yields_of_returns {p : EStateM ε σ α} {f : α → EStateM ε σ β} {P' : β → Prop}
    (hp : Returns p) (hf : ∀ a, Yields P' (f a)) : Yields P' (p >>= f) :=
  yields_bind hp fun a _ => hf a

theorem Yields.mono {p : EStateM ε σ α} {P' : α → Prop} (h : Yields P p)
    (hP : ∀ a, P a → P' a) : Yields P' p :=
  fun s => wp_mono (h s) (fun a _ => hP a) fun _ _ h => h

theorem yields_mapM {f : α → EStateM ε σ β} {R : α → β → Prop} (l : List α)
    (h : ∀ a ∈ l, Yields (R a) (f a)) : Yields (List.Forall₂ R l) (l.mapM f) := by
  induction l with
  | nil => exact yields_pure .nil
  | cons a l ih =>
    rw [List.mapM_cons]
    apply yields_bind (h a (by simp))
    intro b hb
    apply yields_bind (ih fun c hc => h c (by simp [hc]))
    intro bs hbs
    exact yields_pure (.cons hb hbs)

theorem yields_foldlM {f : β → α → EStateM ε σ β} {I : β → Prop} (l : List α)
    (h : ∀ b a, a ∈ l → I b → Yields I (f b a)) {b : β} (hb : I b) :
    Yields I (l.foldlM f b) := by
  induction l generalizing b with
  | nil => exact yields_pure hb
  | cons a l ih =>
    rw [List.foldlM_cons]
    apply yields_bind (h b a (by simp) hb)
    intro c hc
    exact ih (fun d x hx => h d x (by simp [hx])) hc

theorem Yields.run {p : EStateM ε σ α} (h : Yields P p) (s : σ) :
    ∃ a s', p s = .ok a s' ∧ P a := by
  have hs := h s
  unfold wp at hs
  split at hs
  · exact ⟨_, _, ‹_›, hs⟩
  · cases hs

end Program

end GroundedOps
