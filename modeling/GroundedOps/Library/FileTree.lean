import GroundedOps.Library.Dict
import GroundedOps.Library.Program

/-!
# Trees of files

A path is the list of its names. The parents of every entry are directories, so that what
is under a directory goes with it.
-/

namespace GroundedOps

inductive FileError
  | exists
  | notFound
  | isADirectory
  | notADirectory
  deriving DecidableEq, Repr

/-- Directories have no content. -/
structure FileTree (ν τ : Type*) [DecidableEq ν] where
  entries : Dict (List ν) (Option τ)
  root : entries.get? [] = some none
  closed : ∀ p ∈ entries.keys, ∀ q, q <+: p → q ≠ p → entries.get? q = some none

namespace FileTree

variable {ν τ : Type*}

/-- The directory that holds an entry. -/
def parent (p : List ν) : List ν := p.dropLast

theorem isPrefix_parent {p q : List ν} (h : q <+: p) (hne : q ≠ p) : q <+: parent p := by
  obtain ⟨u, rfl⟩ := h
  have hu : u ≠ [] := by
    rintro rfl
    simp at hne
  rw [parent, List.dropLast_append_of_ne_nil hu]
  exact List.prefix_append q _

@[simp] theorem parent_append_singleton (p : List ν) (n : ν) : parent (p ++ [n]) = p := by
  rw [parent, List.dropLast_concat]

variable [DecidableEq ν]

def get? (t : FileTree ν τ) (p : List ν) : Option (Option τ) := t.entries.get? p

/-- `path.exists()` -/
def contains (t : FileTree ν τ) (p : List ν) : Bool := (t.get? p).isSome

def IsDir (t : FileTree ν τ) (p : List ν) : Prop := t.get? p = some none

theorem isDir_of_isPrefix {t : FileTree ν τ} {p q : List ν} (hp : t.contains p = true)
    (hq : q <+: p) (hne : q ≠ p) : t.IsDir q :=
  t.closed p (Dict.get?_isSome.mp hp) q hq hne

/-- An entry whose parent is a directory, in place of none or of one of its kind. -/
def put (t : FileTree ν τ) (p : List ν) (e : Option τ) (hparent : t.IsDir (parent p))
    (hp : ¬ t.IsDir p) : FileTree ν τ where
  entries := t.entries.set p e
  root := by
    have hne : p ≠ [] := by
      rintro rfl
      exact hp t.root
    rw [Dict.get?_set, if_neg hne.symm]
    exact t.root
  closed := by
    intro q hq r hr hne
    have hdir : t.IsDir r := by
      rcases Dict.mem_keys_set.mp hq with rfl | hq
      · by_cases hrp : r = parent q
        · rw [hrp]
          exact hparent
        · have hcontains : t.contains (parent q) = true := by
            rw [contains, hparent]
            rfl
          exact isDir_of_isPrefix hcontains (isPrefix_parent hr hne) hrp
      · exact t.closed q hq r hr hne
    have hrp : r ≠ p := by
      rintro rfl
      exact hp hdir
    rw [Dict.get?_set, if_neg hrp]
    exact hdir

/-- Without a path and everything below it. -/
def drop (t : FileTree ν τ) (p : List ν) (hp : p ≠ []) : FileTree ν τ where
  entries := t.entries.filter fun e => !p.isPrefixOf e.1
  root := by
    have hroot : p.isPrefixOf [] = false := by
      cases p with
      | nil => exact absurd rfl hp
      | cons n p => rfl
    rw [Dict.get?_filter (fun q => !p.isPrefixOf q), hroot]
    exact t.root
  closed := by
    intro q hq r hr hne
    rw [← Dict.get?_isSome, Dict.get?_filter (fun q => !p.isPrefixOf q)] at hq
    split_ifs at hq with hpq
    · have hpr : p.isPrefixOf r = false := by
        rw [Bool.eq_false_iff]
        intro h
        have hinit : p <+: q := (List.isPrefixOf_iff_prefix.mp h).trans hr
        simp [List.isPrefixOf_iff_prefix.mpr hinit] at hpq
      rw [Dict.get?_filter (fun q => !p.isPrefixOf q), hpr]
      exact t.closed q (Dict.get?_isSome.mp hq) r hr hne
    · cases hq

instance (t : FileTree ν τ) (p : List ν) : Decidable (t.IsDir p) :=
  match h : t.get? p with
  | some none => isTrue h
  | some (some _) => isFalse (by rw [IsDir, h]; nofun)
  | none => isFalse (by rw [IsDir, h]; nofun)

/-- `path.mkdir()` -/
def mkdir (t : FileTree ν τ) (p : List ν) : Except FileError (FileTree ν τ) :=
  if hp : t.contains p = true then .error .exists
  else if hparent : t.IsDir (parent p) then
    .ok (t.put p none hparent fun h => hp (by rw [contains, h]; rfl))
  else if t.contains (parent p) then .error .notADirectory
  else .error .notFound

/-- A directory on a path, made if there is none. -/
def enterDir (t : FileTree ν τ) (p : List ν) : Except FileError (FileTree ν τ) :=
  if t.IsDir p then .ok t
  else if t.contains p then .error .notADirectory
  else t.mkdir p

/-- The directories of a path, one after the other. -/
def enter (t : FileTree ν τ) (p : List ν) : Except FileError (FileTree ν τ) :=
  p.inits.foldlM enterDir t

/-- `path.mkdir(parents=True, exist_ok=True)` -/
def makeDirs (t : FileTree ν τ) (p : List ν) : Except FileError (FileTree ν τ) :=
  if t.contains p ∧ ¬ t.IsDir p then .error .exists else t.enter p

/-- `path.mkdir(parents=True)` -/
def mkdirParents (t : FileTree ν τ) (p : List ν) : Except FileError (FileTree ν τ) :=
  if t.contains p then .error .exists else t.makeDirs p

/-- `shutil.rmtree(path)` -/
def rmtree (t : FileTree ν τ) (p : List ν) : Except FileError (FileTree ν τ) :=
  if hp : p ≠ [] ∧ t.IsDir p then .ok (t.drop p hp.1)
  else if t.contains p then .error .notADirectory
  else .error .notFound

/-- `path.write_text(content)` -/
def write (t : FileTree ν τ) (p : List ν) (content : τ) : Except FileError (FileTree ν τ) :=
  if hp : t.IsDir p then .error .isADirectory
  else if hparent : t.IsDir (parent p) then .ok (t.put p (some content) hparent hp)
  else if t.contains (parent p) then .error .notADirectory
  else .error .notFound

/-- `path.read_text()` -/
def read (t : FileTree ν τ) (p : List ν) : Except FileError τ :=
  match t.get? p with
  | some (some content) => .ok content
  | some none => .error .isADirectory
  | none => .error .notFound

/-- The names of the entries of a directory. -/
def children (t : FileTree ν τ) (p : List ν) : List ν :=
  t.entries.keys.filterMap fun q => if parent q = p then q.getLast? else none

/-! ### What the operations leave -/

@[simp] theorem get?_put (t : FileTree ν τ) {p : List ν} (e : Option τ)
    (hparent : t.IsDir (parent p)) (hp : ¬ t.IsDir p) (q : List ν) :
    (t.put p e hparent hp).get? q = if q = p then some e else t.get? q :=
  Dict.get?_set _ _ _ _

theorem get?_mkdir {t t' : FileTree ν τ} {p : List ν} (h : t.mkdir p = .ok t') (q : List ν) :
    t'.get? q = if q = p then some none else t.get? q := by
  unfold mkdir at h
  split_ifs at h
  cases h
  rw [get?_put]

theorem get?_enterDir {t t' : FileTree ν τ} {p : List ν} (h : t.enterDir p = .ok t')
    (q : List ν) : t'.get? q = if q = p then some none else t.get? q := by
  unfold enterDir at h
  split_ifs at h with hdir hfile
  · cases h
    split_ifs with hq
    · rw [hq, hdir]
    · rfl
  · exact get?_mkdir h q

theorem get?_enter {t t' : FileTree ν τ} {p : List ν} (h : t.enter p = .ok t')
    (q : List ν) : t'.get? q = if q <+: p then some none else t.get? q := by
  have hfold : ∀ (l : List (List ν)) (t : FileTree ν τ), l.foldlM enterDir t = Except.ok t' →
      t'.get? q = if q ∈ l then some none else t.get? q := by
    intro l
    induction l with
    | nil =>
      rintro t ⟨⟩
      simp
    | cons r l ih =>
      intro t h
      rw [List.foldlM_cons] at h
      obtain ⟨u, hu, hrest⟩ := bind_eq_ok.mp h
      rw [ih u hrest, get?_enterDir hu]
      by_cases hq : q = r <;> simp [hq]
  rw [hfold p.inits t h]
  simp only [List.mem_inits]

theorem get?_makeDirs {t t' : FileTree ν τ} {p : List ν} (h : t.makeDirs p = .ok t')
    (q : List ν) : t'.get? q = if q <+: p then some none else t.get? q := by
  unfold makeDirs at h
  split_ifs at h
  exact get?_enter h q

theorem get?_rmtree {t t' : FileTree ν τ} {p : List ν} (h : t.rmtree p = .ok t') (q : List ν) :
    t'.get? q = if p <+: q then none else t.get? q := by
  unfold rmtree at h
  split_ifs at h
  cases h
  rw [get?, drop, Dict.get?_filter (fun q => !p.isPrefixOf q)]
  simp only [Bool.not_eq_true', ← Bool.not_eq_true, List.isPrefixOf_iff_prefix, ite_not]
  rfl

theorem get?_write {t t' : FileTree ν τ} {p : List ν} {content : τ}
    (h : t.write p content = .ok t') (q : List ν) :
    t'.get? q = if q = p then some (some content) else t.get? q := by
  unfold write at h
  split_ifs at h
  cases h
  rw [get?_put]

theorem read_eq_ok {t : FileTree ν τ} {p : List ν} {content : τ} :
    t.read p = .ok content ↔ t.get? p = some (some content) := by
  unfold read
  split <;> simp_all

theorem mem_children {t : FileTree ν τ} {p : List ν} {n : ν} :
    n ∈ t.children p ↔ t.contains (p ++ [n]) = true := by
  rw [children, List.mem_filterMap, contains, get?, Dict.get?_isSome]
  constructor
  · rintro ⟨q, hq, hn⟩
    split_ifs at hn with hparent
    obtain ⟨r, rfl⟩ := List.getLast?_eq_some_iff.mp hn
    rw [parent_append_singleton] at hparent
    rwa [← hparent]
  · intro h
    exact ⟨_, h, by simp⟩

theorem nodup_children (t : FileTree ν τ) (p : List ν) : (t.children p).Nodup := by
  apply t.entries.nodup_keys.filterMap
  intro q r n hq hr
  simp only [Option.mem_def] at hq hr
  split_ifs at hq hr with hparent hparent'
  obtain ⟨u, rfl⟩ := List.getLast?_eq_some_iff.mp hq
  obtain ⟨v, rfl⟩ := List.getLast?_eq_some_iff.mp hr
  rw [parent_append_singleton] at hparent hparent'
  rw [hparent, hparent']

/-! ### When they succeed -/

theorem mkdir_ok {t : FileTree ν τ} {p : List ν} (hp : t.get? p = none)
    (hparent : t.IsDir (parent p)) : ∃ t', t.mkdir p = .ok t' := by
  have hcontains : ¬ t.contains p = true := by simp [contains, hp]
  exact ⟨_, by rw [mkdir, dif_neg hcontains, dif_pos hparent]⟩

theorem rmtree_ok {t : FileTree ν τ} {p : List ν} (hne : p ≠ []) (hp : t.IsDir p) :
    ∃ t', t.rmtree p = .ok t' :=
  ⟨_, by rw [rmtree, dif_pos ⟨hne, hp⟩]⟩

theorem write_ok {t : FileTree ν τ} {p : List ν} (hp : ¬ t.IsDir p)
    (hparent : t.IsDir (parent p)) (content : τ) : ∃ t', t.write p content = .ok t' :=
  ⟨_, by rw [write, dif_neg hp, dif_pos hparent]⟩

theorem enter_concat (t : FileTree ν τ) (p : List ν) (n : ν) :
    t.enter (p ++ [n]) = t.enter p >>= fun t => t.enterDir (p ++ [n]) := by
  simp [enter, List.inits_append, List.foldlM_append]

/-- The root alone. -/
def empty : FileTree ν τ where
  entries := Dict.empty.set [] none
  root := by rw [Dict.get?_set, if_pos rfl]
  closed := by
    intro p hp q hq hne
    have hroot : p = [] := by simpa [Dict.mem_keys_set] using hp
    rw [hroot, List.prefix_nil] at hq
    exact absurd (hq.trans hroot.symm) hne

theorem get?_empty (p : List ν) : (empty : FileTree ν τ).get? p = if p = [] then some none else none :=
  Dict.get?_set _ _ _ _

/-- Nothing but directories stands on a path. -/
def Clear (t : FileTree ν τ) (p : List ν) : Prop := ∀ q, q <+: p → t.get? q = none ∨ t.IsDir q

theorem enter_ok {t : FileTree ν τ} {p : List ν} (h : t.Clear p) : ∃ t', t.enter p = .ok t' := by
  induction p using List.reverseRecOn with
  | nil =>
    have hroot : t.IsDir [] := t.root
    exact ⟨t, by simp [enter, enterDir, hroot]⟩
  | append_singleton p n ih =>
    obtain ⟨u, hu⟩ := ih fun q hq => h q (hq.trans (List.prefix_append p [n]))
    rw [enter_concat, hu]
    by_cases hdir : u.IsDir (p ++ [n])
    · exact ⟨u, if_pos hdir⟩
    · have hnone : u.get? (p ++ [n]) = none := by
        have hlonger : ¬ p ++ [n] <+: p := by
          intro hinit
          have hlength := hinit.length_le
          simp at hlength
        have hget := get?_enter hu (p ++ [n])
        rw [if_neg hlonger] at hget
        rcases h (p ++ [n]) List.prefix_rfl with hfree | hfree
        · rw [hget, hfree]
        · exact absurd (hget.trans hfree) hdir
      have hparent : u.IsDir (parent (p ++ [n])) := by
        rw [parent_append_singleton, IsDir, get?_enter hu, if_pos List.prefix_rfl]
      obtain ⟨t', ht'⟩ := mkdir_ok hnone hparent
      refine ⟨t', ?_⟩
      rw [← ht']
      exact (if_neg hdir).trans (if_neg (by simp [contains, hnone]))

theorem makeDirs_ok {t : FileTree ν τ} {p : List ν} (h : t.Clear p) :
    ∃ t', t.makeDirs p = .ok t' := by
  have hfree : ¬ (t.contains p ∧ ¬ t.IsDir p) := by
    rintro ⟨hp, hfile⟩
    rcases h p List.prefix_rfl with hnone | hdir
    · simp [contains, hnone] at hp
    · exact hfile hdir
  rw [makeDirs, if_neg hfree]
  exact enter_ok h

end FileTree

end GroundedOps
