import GroundedOps.Library.SqlGroups

/-!
# The labels of a result

Every row that a statement returns carries the labels of the items of the statement, in their
order. A database may order and cut the rows; it makes up none.
-/

namespace GroundedOps.Sql

variable {V P E : Type}

/-- Rows are ordered and cut, never made up. -/
structure ReturnsRows (engine : Engine V P E) : Prop where
  arrange : ∀ order outs arranged, engine.arrange order outs = .ok arranged → arranged ⊆ outs
  cut : ∀ limit outs rest, engine.cut limit outs = .ok rest → rest ⊆ outs

/-- The labels of all rows of a result. -/
def labels (columns : List Name) (q : Select) : List Name := (outputs columns q.items).map Prod.fst

theorem labels_of_project {value : Expr → Except E V} {outs : List (Name × Expr)} {out : Output V}
    (h : project value outs = .ok out) : out.map Prod.fst = outs.map Prod.fst := by
  induction outs generalizing out with
  | nil =>
    cases h
    rfl
  | cons p outs ih =>
    rw [project, List.mapM_cons] at h
    obtain ⟨head, hhead, h⟩ := bind_eq_ok.mp h
    obtain ⟨rest, hrest, h⟩ := bind_eq_ok.mp h
    cases h
    cases hvalue : value p.2 with
    | error e =>
      rw [hvalue] at hhead
      cases hhead
    | ok v =>
      rw [hvalue] at hhead
      cases hhead
      rw [List.map_cons, List.map_cons, ih hrest]

theorem labels_of_mapM {α : Type} {value : α → Expr → Except E V} {outs : List (Name × Expr)}
    {groups : List α} {returned : List (Output V)}
    (h : groups.mapM (fun group => project (value group) outs) = .ok returned) :
    ∀ out ∈ returned, out.map Prod.fst = outs.map Prod.fst := by
  have hrows := mapM_eq_ok.mp h
  clear h
  induction hrows with
  | nil => simp
  | cons hhead _ ih => exact List.forall_mem_cons.mpr ⟨labels_of_project hhead, ih⟩

theorem labels_of_results {engine : Engine V P E} {columns : List Name} {q : Select}
    {rows : List (Record V)} {returned : List (Output V)}
    (h : results engine columns q rows = .ok returned) :
    ∀ out ∈ returned, out.map Prod.fst = labels columns q := by
  unfold results at h
  dsimp only at h
  split_ifs at h with hgroup haggregates
  · exact labels_of_mapM h
  · cases hrow : project (overGroup engine rows) (outputs columns q.items) with
    | error e =>
      rw [hrow] at h
      cases h
    | ok row =>
      rw [hrow] at h
      cases h
      intro out hout
      obtain rfl := List.mem_singleton.mp hout
      exact labels_of_project hrow
  · obtain ⟨keys, -, h⟩ := bind_eq_ok.mp h
    obtain ⟨groups, -, h⟩ := bind_eq_ok.mp h
    exact labels_of_mapM h

/-- Ordering and cutting leave the labels alone. -/
theorem labels_of_eval {engine : Engine V P E} (laws : ReturnsRows engine) {columns : List Name}
    {q : Select} {bound : Name → Option P} {rows : List (Record V)} {outs : List (Output V)}
    (h : eval engine columns q bound rows = .ok outs) :
    ∀ out ∈ outs, out.map Prod.fst = labels columns q := by
  obtain ⟨-, members, -, returned, hreturned, arranged, harranged, houts⟩ := eval_eq_ok.mp h
  have hlabels := labels_of_results hreturned
  have hordered : arranged ⊆ returned := by
    cases horder : q.order with
    | none =>
      rw [horder] at harranged
      cases harranged
      exact List.Subset.refl _
    | some order =>
      rw [horder] at harranged
      exact laws.arrange _ _ _ harranged
  have hcut : outs ⊆ arranged := by
    cases hlimit : q.limit with
    | none =>
      rw [hlimit] at houts
      cases houts
      exact List.Subset.refl _
    | some limit =>
      rw [hlimit] at houts
      exact laws.cut _ _ _ houts
  intro out hout
  exact hlabels out (hordered (hcut hout))

end GroundedOps.Sql
