import GroundedOps.McpServer.GroupCounts

/-!
# Going into a group

The call without columns that filters for the values of a group counts what was shown for the
group. The metric of the incidents counts what the aggregation counts with the same filters.
-/

namespace GroundedOps.McpServer

open Python Security Sql Db Program

variable {F D N : Type}

/-- The database compares texts; a row without one is not selected. -/
def ComparesTexts (backend : Backend F D N) : Prop :=
  ∀ t ∈ models, ∀ col ∈ t.2.columns, col.type = .string → ∀ s, nul ∉ s →
    ∃ v, backend.engine.bindValue t.1 col.name (.value (.str s)) = .ok v ∧
      ∀ c, backend.engine.compare ['='] (textCell c) v = .ok (decide (c = some s))

/-! ### What is bound -/

theorem str_injective : Function.Injective fun n => 'v' :: str n := by
  intro m n h
  exact str_inj (List.cons.inj h).2

theorem filterClauses_append (items : List (Text × Json F)) (x : Text × Json F)
    (c : Clauses F D) :
    (items ++ [x]).zipIdx.foldl (fun c p => c.bind (p.1.1 ++ " = :v".toList ++ str p.2)
        ('v' :: str p.2) (.value p.1.2)) c =
      (items.zipIdx.foldl (fun c p => c.bind (p.1.1 ++ " = :v".toList ++ str p.2)
        ('v' :: str p.2) (.value p.1.2)) c).bind (x.1 ++ " = :v".toList ++ str items.length)
          ('v' :: str items.length) (.value x.2) := by
  rw [List.zipIdx_append, List.foldl_append]
  simp

/-- The placeholder of a filter is bound to its value. -/
theorem filterClauses_get? (filters : Dict Text (Json F)) {i : ℕ} {x : Text × Json F}
    (h : filters.items[i]? = some x) :
    (filterClauses filters : Clauses F D).params.get? ('v' :: str i) = some (.value x.2) := by
  have hitems : ∀ items : List (Text × Json F), items[i]? = some x →
      (items.zipIdx.foldl (fun c p => c.bind (p.1.1 ++ " = :v".toList ++ str p.2)
        ('v' :: str p.2) (.value p.1.2)) ({} : Clauses F D)).params.get? ('v' :: str i) =
          some (.value x.2) := by
    intro items hx
    induction items using List.reverseRecOn with
    | nil => simp at hx
    | append_singleton items y ih =>
      rw [filterClauses_append, Clauses.bind, Dict.get?_set]
      by_cases hi : i = items.length
      · subst hi
        rw [List.getElem?_concat_length] at hx
        cases hx
        rw [if_pos rfl]
      · have hlt : i < items.length := by
          have hbound := (List.getElem?_eq_some_iff.mp hx).1
          rw [List.length_append, List.length_singleton] at hbound
          omega
        rw [List.getElem?_append_left hlt] at hx
        rw [if_neg (fun h => hi (str_injective h))]
        exact ih hx
  exact hitems filters.items h

theorem bindTime_params {cal : Calendar F D N} {c c' : Clauses F D} {cond name : Text}
    {o : Option Text} (h : bindTime cal c cond name o = .ok c') :
    (∀ v ∈ o, ∃ dt, parseDt cal v = .ok dt ∧ c'.params.get? name = some (.datetime dt)) ∧
      ∀ n, n ≠ name → c'.params.get? n = c.params.get? n := by
  cases o with
  | none =>
    cases h
    exact ⟨nofun, fun _ _ => rfl⟩
  | some v =>
    obtain ⟨dt, hdt, h⟩ := bind_eq_ok.mp h
    cases h
    constructor
    · intro w hw
      obtain rfl := Option.mem_some_iff.mp hw
      exact ⟨dt, hdt, by rw [Clauses.bind, Dict.get?_set, if_pos rfl]⟩
    · intro n hn
      rw [Clauses.bind, Dict.get?_set, if_neg hn]

theorem bindTime_ok_of {cal : Calendar F D N} {c₁ c₁' : Clauses F D} {cond name : Text}
    {o : Option Text} (h : bindTime cal c₁ cond name o = .ok c₁') (c₂ : Clauses F D) :
    ∃ c₂', bindTime cal c₂ cond name o = .ok c₂' := by
  cases o with
  | none => exact ⟨c₂, rfl⟩
  | some v =>
    obtain ⟨dt, hdt, -⟩ := bind_eq_ok.mp h
    exact ⟨_, bind_eq_ok.mpr ⟨dt, hdt, rfl⟩⟩

/-- The time clause binds the bounds it is given and leaves the other parameters alone. -/
theorem timeClause_params {cal : Calendar F D N} {table : Text} {start stop : Option Text}
    {c c' : Clauses F D} (h : timeClause cal table start stop c = .ok c') :
    (∀ v ∈ start, ∃ dt, parseDt cal v = .ok dt ∧
      c'.params.get? "start".toList = some (.datetime dt)) ∧
    (∀ v ∈ stop, ∃ dt, parseDt cal v = .ok dt ∧
      c'.params.get? "end".toList = some (.datetime dt)) ∧
    ∀ n, n ≠ "start".toList → n ≠ "end".toList → c'.params.get? n = c.params.get? n := by
  unfold timeClause at h
  split at h
  · next hnone =>
    obtain ⟨rfl, rfl⟩ : start = none ∧ stop = none := by simpa using hnone
    cases h
    exact ⟨nofun, nofun, fun _ _ _ => rfl⟩
  · obtain ⟨p, -, h⟩ := bind_eq_ok.mp h
    split at h
    · cases h
    · obtain ⟨c₁, h₁, h₂⟩ := bind_eq_ok.mp h
      obtain ⟨hstart, hothers⟩ := bindTime_params h₁
      obtain ⟨hstop, hothers'⟩ := bindTime_params h₂
      have hne : "start".toList ≠ "end".toList := by decide
      refine ⟨fun v hv => ?_, hstop, fun n hn hn' => (hothers' n hn').trans (hothers n hn)⟩
      obtain ⟨dt, hdt, hget⟩ := hstart v hv
      exact ⟨dt, hdt, (hothers' _ hne).trans hget⟩

theorem timeClause_ok_of {cal : Calendar F D N} {table : Text} {start stop : Option Text}
    {c₁ c₁' : Clauses F D} (h : timeClause cal table start stop c₁ = .ok c₁')
    (c₂ : Clauses F D) : ∃ c₂', timeClause cal table start stop c₂ = .ok c₂' := by
  unfold timeClause at h ⊢
  split_ifs at h ⊢ with hnone
  · exact ⟨c₂, rfl⟩
  · obtain ⟨p, hp, h⟩ := bind_eq_ok.mp h
    cases hcol : p.timeColumn with
    | none =>
      simp only [hcol] at h
      cases h
    | some col =>
      simp only [hcol] at h
      obtain ⟨d₁, hd₁, h⟩ := bind_eq_ok.mp h
      obtain ⟨d₂, hd₂⟩ := bindTime_ok_of hd₁ c₂
      obtain ⟨c₂', hc₂'⟩ := bindTime_ok_of h d₂
      refine ⟨c₂', bind_eq_ok.mpr ⟨p, hp, ?_⟩⟩
      simp only [hcol]
      exact bind_eq_ok.mpr ⟨d₂, hd₂, hc₂'⟩

/-! ### The conditions with their values -/

section Tests

variable {engine : Engine (Cell F D N) (Param F D) Exn} {table : Text}

/-- The conditions of filters. -/
def filterTests (engine : Engine (Cell F D N) (Param F D) Exn) (table : Text)
    (items : List (Text × Json F)) : Except Exn (List (Test (Cell F D N))) :=
  items.mapM fun x => (engine.bindValue table x.1 (.value x.2)).map (.compare x.1 ['='])

theorem bind_filterConds {items : List (Text × Json F)} {k : ℕ}
    {bound : Name → Option (Param F D)}
    (hbound : ∀ i x, items[i]? = some x → bound ('v' :: str (k + i)) = some (.value x.2)) :
    (((items.map Prod.fst).zipIdx k).map fun p => Cond.compare p.1 ['='] ('v' :: str p.2)).mapM
      (bindCond engine table bound) = filterTests engine table items := by
  induction items generalizing k with
  | nil => rfl
  | cons x items ih =>
    have hfirst := hbound 0 x rfl
    rw [Nat.add_zero] at hfirst
    have hrest := @ih (k + 1) (by
      intro i y hy
      rw [Nat.add_assoc, Nat.add_comm 1]
      exact hbound (i + 1) y hy)
    have hcons : filterTests engine table (x :: items) = (do
        let test ← (engine.bindValue table x.1 (.value x.2)).map (.compare x.1 ['='])
        let tests ← filterTests engine table items
        return test :: tests) := List.mapM_cons
    rw [List.map_cons, List.zipIdx_cons, List.map_cons, List.mapM_cons, hrest, hcons, bindCond,
      hfirst]

theorem mem_timeConds {start stop : Bool} {cond : Cond} (h : cond ∈ timeConds table start stop) :
    (start = true ∧ ∃ col, cond = .compare col ">=".toList "start".toList) ∨
      (stop = true ∧ ∃ col, cond = .compare col "<=".toList "end".toList) := by
  unfold timeConds at h
  cases hcol : timeColumnOf table with
  | none =>
    rw [hcol] at h
    cases h
  | some col =>
    simp only [hcol] at h
    rcases List.mem_append.mp h with h | h
    · unfold optional at h
      split_ifs at h with hstart
      · exact .inl ⟨hstart, col, List.mem_singleton.mp h⟩
      · cases h
    · unfold optional at h
      split_ifs at h with hstop
      · exact .inr ⟨hstop, col, List.mem_singleton.mp h⟩
      · cases h

/-- The conditions on the time only look at the bounds. -/
theorem bind_timeConds {cal : Calendar F D N} {start stop : Option Text}
    {c₁ c₁' c₂ c₂' : Clauses F D} (h₁ : timeClause cal table start stop c₁ = .ok c₁')
    (h₂ : timeClause cal table start stop c₂ = .ok c₂') (t : Text) :
    (timeConds table start.isSome stop.isSome).mapM (bindCond engine t c₁'.params.get?) =
      (timeConds table start.isSome stop.isSome).mapM (bindCond engine t c₂'.params.get?) := by
  obtain ⟨hstart₁, hstop₁, -⟩ := timeClause_params h₁
  obtain ⟨hstart₂, hstop₂, -⟩ := timeClause_params h₂
  apply mapM_congr
  intro cond hcond
  rcases mem_timeConds hcond with ⟨hsome, col, rfl⟩ | ⟨hsome, col, rfl⟩
  · obtain ⟨v, hv⟩ := Option.isSome_iff_exists.mp hsome
    obtain ⟨dt, hdt, hget⟩ := hstart₁ v hv
    obtain ⟨dt', hdt', hget'⟩ := hstart₂ v hv
    cases hdt.symm.trans hdt'
    rw [bindCond, bindCond, hget, hget']
  · obtain ⟨v, hv⟩ := Option.isSome_iff_exists.mp hsome
    obtain ⟨dt, hdt, hget⟩ := hstop₁ v hv
    obtain ⟨dt', hdt', hget'⟩ := hstop₂ v hv
    cases hdt.symm.trans hdt'
    rw [bindCond, bindCond, hget, hget']

end Tests

/-! ### The selected rows -/

section Selected

variable {backend : Backend F D N} {cal : Calendar F D N} {s : State F D N}
  {table : Text} {groupBy : List Text} {column : Option Text}
  {filters : Option (Dict Text (Json F))} {start stop : Option Text} {cap : ℕ}

/-- What a call selects depends on its filters and bounds, however they are bound. -/
theorem selected_eq_filterRows {c₀ c c' : Clauses F D}
    (hc : timeClause cal table start stop (filterClauses (filters.getD .empty)) = .ok c)
    (hc' : timeClause cal table start stop c₀ = .ok c') {members : List (Record (Cell F D N))} :
    Sql.selected backend.engine (Call.aggregate table groupBy count column filters start stop
        cap).shape.select c.params.get? (s.rows table) = .ok members ↔
      ∃ a, filterTests backend.engine table (filters.getD .empty).items = .ok a ∧
        ∃ b, (timeConds table start.isSome stop.isSome).mapM
            (bindCond backend.engine table c'.params.get?) = .ok b ∧
          filterRows backend.engine (a ++ b) (s.rows table) = .ok members := by
  have hfilters : (filterConds (filters.getD .empty).keys).mapM
      (bindCond backend.engine table c.params.get?) =
        filterTests backend.engine table (filters.getD .empty).items := by
    apply bind_filterConds
    intro i x hx
    obtain ⟨-, -, hothers⟩ := timeClause_params hc
    have hstart : 'v' :: str i ≠ "start".toList := fun h => absurd (List.cons.inj h).1 (by decide)
    have hstop : 'v' :: str i ≠ "end".toList := fun h => absurd (List.cons.inj h).1 (by decide)
    rw [Nat.zero_add, hothers _ hstart hstop]
    exact filterClauses_get? _ hx
  have htimes := @bind_timeConds F D N backend.engine table cal start stop _ _ _ _ hc hc' table
  change (((filterConds (filters.getD .empty).keys ++
    timeConds table start.isSome stop.isSome).mapM
      (bindCond backend.engine table c.params.get?)) >>= fun tests =>
        filterRows backend.engine tests (s.rows table)) = .ok members ↔ _
  rw [List.mapM_append, hfilters, htimes]
  simp only [bind_eq_ok, bind_assoc]
  constructor
  · rintro ⟨a, ha, b, hb, tests, htests, h⟩
    cases htests
    exact ⟨a, ha, b, hb, h⟩
  · rintro ⟨a, ha, b, hb, h⟩
    exact ⟨a, ha, b, hb, a ++ b, rfl, h⟩

end Selected

/-! ### Filters for texts -/

section Texts

variable {backend : Backend F D N} {s : State F D N} {table : Text} {p : TablePolicy}

theorem textCell_groupBy (hp : policy table = .ok p) {g : Text} (hg : g ∈ p.groupBy)
    {row : Record (Cell F D N)} (hrow : row ∈ s.rows table) :
    textCell (cellText (row g)) = row g := by
  have hmem := policy_validates table
  rw [hp] at hmem
  obtain ⟨t, ht, htable, col, hcol, rfl, hstring⟩ := groupBy_string _ hmem g hg
  obtain rfl : t.1 = table := htable
  exact textCell_cellText (s.admits t ht row hrow col hcol) hstring

variable (htexts : ComparesTexts backend) (hp : policy table = .ok p)

include htexts hp

/-- A filter for a text, in a column to group by, compares. -/
theorem bindValue_text {g k : Text} (hg : g ∈ p.groupBy) (hk : nul ∉ k) :
    ∃ v, backend.engine.bindValue table g (.value (.str k)) = .ok v ∧
      ∀ row ∈ s.rows table, holds backend.engine row (.compare g ['='] v) =
        .ok (decide (cellText (row g) = some k)) := by
  have hmem := policy_validates table
  rw [hp] at hmem
  obtain ⟨t, ht, htable, col, hcol, hname, hstring⟩ := groupBy_string _ hmem g hg
  obtain ⟨v, hv, hcompare⟩ := htexts t ht col hcol hstring k hk
  rw [htable, hname] at hv
  refine ⟨v, hv, fun row hrow => ?_⟩
  rw [holds, ← textCell_groupBy hp hg hrow, hcompare, textCell_groupBy hp hg hrow]

/-- The rows with these texts in the columns. -/
theorem filterTests_texts {pairs : List (Text × Text)}
    (hpairs : ∀ x ∈ pairs, x.1 ∈ p.groupBy ∧ nul ∉ x.2) :
    ∃ b, filterTests backend.engine table (pairs.map fun x => (x.1, .str x.2)) = .ok b ∧
      ∀ row ∈ s.rows table, passes backend.engine row b =
        .ok (pairs.all fun x => decide (cellText (row x.1) = some x.2)) := by
  induction pairs with
  | nil => exact ⟨[], rfl, fun _ _ => rfl⟩
  | cons x pairs ih =>
    obtain ⟨⟨hg, hk⟩, hpairs⟩ := List.forall_mem_cons.mp hpairs
    obtain ⟨b, hb, hpasses⟩ := ih hpairs
    obtain ⟨v, hv, hholds⟩ := @bindValue_text F D N backend s table p htexts hp _ _ hg hk
    refine ⟨.compare x.1 ['='] v :: b, ?_, fun row hrow => ?_⟩
    · rw [List.map_cons, filterTests, List.mapM_cons, hv]
      exact bind_eq_ok.mpr ⟨_, rfl, bind_eq_ok.mpr ⟨b, hb, rfl⟩⟩
    · rw [passes, hholds row hrow, ok_bind, hpasses row hrow, List.all_cons]
      cases decide (cellText (row x.1) = some x.2) <;> rfl

/-- Filters whose values are replaced by the texts of a row that passes them. The rows that pass
are those that passed and have these texts. -/
theorem filterTests_replaced {pairs : List (Text × Text)}
    (hpairs : ∀ x ∈ pairs, x.1 ∈ p.groupBy ∧ nul ∉ x.2) {first : Record (Cell F D N)}
    (hfirst : first ∈ s.rows table) (hvalues : ∀ x ∈ pairs, cellText (first x.1) = some x.2)
    {items : List (Text × Json F)} {a : List (Test (Cell F D N))}
    (ha : filterTests backend.engine table items = .ok a)
    (hpass : passes backend.engine first a = .ok true) :
    ∃ a', filterTests backend.engine table
        (items.map fun x => (x.1, ((pairs.lookup x.1).map .str).getD x.2)) = .ok a' ∧
      ∀ row ∈ s.rows table, ∀ passed, passes backend.engine row a = .ok passed →
        passes backend.engine row a' = .ok (passed && items.all fun x =>
          (pairs.lookup x.1).all fun k => decide (cellText (row x.1) = some k)) := by
  induction items generalizing a with
  | nil =>
    cases ha
    refine ⟨[], rfl, fun row _ passed hpassed => ?_⟩
    rw [List.all_nil, Bool.and_true]
    exact hpassed
  | cons x items ih =>
    rw [filterTests, List.mapM_cons] at ha
    obtain ⟨test, htest, ha⟩ := bind_eq_ok.mp ha
    obtain ⟨rest, hrest, ha⟩ := bind_eq_ok.mp ha
    cases ha
    obtain ⟨held, hheld, hpass⟩ := bind_eq_ok.mp hpass
    cases held with
    | false => cases hpass
    | true =>
      obtain ⟨a', ha', hpasses⟩ := ih hrest hpass
      cases hlookup : pairs.lookup x.1 with
      | none =>
        refine ⟨test :: a', ?_, fun row hrow passed hpassed => ?_⟩
        · rw [List.map_cons, filterTests, List.mapM_cons, hlookup]
          exact bind_eq_ok.mpr ⟨test, htest, bind_eq_ok.mpr ⟨a', ha', rfl⟩⟩
        · obtain ⟨held, hheld', hpassed⟩ := bind_eq_ok.mp hpassed
          rw [passes, hheld', ok_bind, List.all_cons, hlookup, Option.all_none, Bool.true_and]
          cases held with
          | true => exact hpasses row hrow passed hpassed
          | false =>
            cases hpassed
            rfl
      | some k =>
        obtain ⟨before, after, hsplit, -⟩ := List.lookup_eq_some_iff.mp hlookup
        have hmem : (x.1, k) ∈ pairs := by
          rw [hsplit]
          simp
        obtain ⟨hg, hk⟩ := hpairs _ hmem
        obtain ⟨v, hv, hholds⟩ := @bindValue_text F D N backend s table p htexts hp _ _ hg hk
        refine ⟨.compare x.1 ['='] v :: a', ?_, fun row hrow passed hpassed => ?_⟩
        · rw [List.map_cons, filterTests, List.mapM_cons, hlookup]
          refine bind_eq_ok.mpr ⟨.compare x.1 ['='] v, ?_, bind_eq_ok.mpr ⟨a', ha', rfl⟩⟩
          rw [Option.map_some, Option.getD_some, hv]
          rfl
        · rw [passes, hholds row hrow, ok_bind, List.all_cons, hlookup, Option.all_some]
          by_cases hcell : cellText (row x.1) = some k
          · -- The row has the text of the one that passes, so the old condition holds as well.
            have hsame : row x.1 = first x.1 := by
              rw [← textCell_groupBy hp hg hrow, ← textCell_groupBy hp hg hfirst, hcell,
                hvalues _ hmem]
            have hheld' : holds backend.engine row test = .ok true := by
              cases hbind : backend.engine.bindValue table x.1 (.value x.2) with
              | error e =>
                rw [hbind] at htest
                cases htest
              | ok w =>
                rw [hbind] at htest
                cases htest
                rw [holds, hsame]
                exact hheld
            rw [passes, hheld', ok_bind] at hpassed
            rw [decide_eq_true hcell, Bool.true_and]
            exact hpasses row hrow passed hpassed
          · rw [decide_eq_false hcell, Bool.false_and, Bool.and_false]
            rfl

end Texts

/-! ### Into a group -/

theorem groupBy_filter : ∀ e ∈ allowed, ∀ g ∈ e.2.groupBy, g ∈ e.2.filterColumns := by
  decide +kernel

theorem filterColumns_le : ∀ e ∈ allowed, e.2.filterColumns.length ≤ maxFilters := by
  decide +kernel

theorem nul_notMem_cellText {c : Cell F D N} {col : Column} (h : Admits col c) {t : Text}
    (ht : cellText c = some t) : nul ∉ t := by
  unfold cellText at ht
  split at ht
  · cases ht
    exact h.2
  · cases ht

theorem keyOf_eq_iff {groupBy ks : List Text} (hlength : ks.length = groupBy.length)
    (row : Record (Cell F D N)) : keyOf groupBy row = ks.map some ↔
      ∀ x ∈ groupBy.zip ks, cellText (row x.1) = some x.2 := by
  induction groupBy generalizing ks with
  | nil =>
    obtain rfl := List.length_eq_zero_iff.mp hlength
    simp [keyOf]
  | cons g groupBy ih =>
    obtain ⟨k, ks, rfl⟩ := List.exists_cons_of_length_eq_add_one hlength
    rw [List.zip_cons_cons, List.forall_mem_cons, ← ih (Nat.succ.inj hlength)]
    exact List.cons_eq_cons

theorem optText_injective : Function.Injective (optText : Option Text → Json F) := by
  intro a b h
  cases a <;> cases b <;> cases h <;> rfl

/-- A group is shown with its texts. -/
theorem groupJson_inj {groupBy : List Text} {g g' : List (Option Text) × ℕ}
    (hg : g.1.length = groupBy.length) (hg' : g'.1.length = groupBy.length)
    (h : (groupJson groupBy g : Json F) = groupJson groupBy g') : g = g' := by
  rw [groupJson, groupJson, Json.obj.injEq] at h
  obtain ⟨hzip, hcount⟩ := List.append_inj' h rfl
  have htexts := congrArg (List.map Prod.snd) hzip
  rw [List.map_snd_zip (by simp [hg]), List.map_snd_zip (by simp [hg'])] at htexts
  have hkeys := List.map_injective_iff.mpr optText_injective htexts
  exact Prod.ext hkeys (by simpa using hcount)

/-- The filters with the texts of a group: those on its columns are replaced. -/
theorem items_update_texts {pairs : List (Text × Text)} (h : (pairs.map Prod.fst).Nodup)
    (d : Dict Text (Json F)) : (d.update (pairs.map fun x => (x.1, .str x.2))).items =
      (d.items.map fun x => (x.1, ((pairs.lookup x.1).map .str).getD x.2)) ++
        (pairs.filter fun x => x.1 ∉ d.keys).map fun x => (x.1, .str x.2) := by
  have hlookup : ∀ k, (pairs.map fun x => (x.1, (.str x.2 : Json F))).lookup k =
      (pairs.lookup k).map .str := by
    intro k
    clear h
    induction pairs with
    | nil => rfl
    | cons x pairs ih =>
      rw [List.map_cons, List.lookup_cons, List.lookup_cons, ih]
      cases k == x.1 <;> rfl
  rw [Dict.items_update (by simpa [Function.comp_def] using h), List.filter_map]
  simp only [hlookup]
  rfl

/-- The filters on the columns of the group, old and new, ask for all its texts. -/
theorem all_update {pairs : List (Text × Text)} (h : (pairs.map Prod.fst).Nodup)
    (d : Dict Text (Json F)) (row : Record (Cell F D N)) :
    ((d.items.all fun x => (pairs.lookup x.1).all fun k =>
        decide (cellText (row x.1) = some k)) &&
      (pairs.filter fun x => x.1 ∉ d.keys).all fun x =>
        decide (cellText (row x.1) = some x.2)) =
      decide (∀ x ∈ pairs, cellText (row x.1) = some x.2) := by
  rw [Bool.eq_iff_iff, Bool.and_eq_true, List.all_eq_true, List.all_eq_true, decide_eq_true_iff]
  constructor
  · rintro ⟨hold, hfresh⟩ x hx
    by_cases hkey : x.1 ∈ d.keys
    · obtain ⟨y, hy, hname⟩ := List.mem_map.mp hkey
      have hall := hold y hy
      rw [hname, (Dict.lookup_eq_some h).mpr hx] at hall
      simpa using hall
    · simpa using hfresh x (List.mem_filter.mpr ⟨hx, by simpa using hkey⟩)
  · intro hall
    refine ⟨fun y _ => ?_, fun x hx => ?_⟩
    · cases hlookup : pairs.lookup y.1 with
      | none => rfl
      | some k =>
        have hmem : (y.1, k) ∈ pairs := (Dict.lookup_eq_some h).mp hlookup
        simpa using hall _ hmem
    · simpa using hall x (List.mem_of_mem_filter hx)

section DrillDown

variable {backend : Backend F D N} {py : Interpreter F} {cal : Calendar F D N} {s : State F D N}
  {table : Text} {groupBy : List Text} {column : Option Text}
  {filters : Option (Dict Text (Json F))} {start stop : Option Text} {cap : ℕ}

/-- The texts of a group that has a row are stored texts. -/
theorem nul_notMem_key {p : TablePolicy} (hp : policy table = .ok p)
    (hgroupBy : ∀ g ∈ groupBy, g ∈ p.groupBy) {row : Record (Cell F D N)}
    (hrow : row ∈ s.rows table) {ks : List Text} (hkey : keyOf groupBy row = ks.map some) :
    ∀ k ∈ ks, nul ∉ k := by
  have hmem := policy_validates table
  rw [hp] at hmem
  intro k hk
  have hsome : some k ∈ keyOf groupBy row := by
    rw [hkey]
    exact List.mem_map_of_mem hk
  obtain ⟨g, hg, hcell⟩ := List.mem_map.mp hsome
  obtain ⟨t, ht, htable, col, hcol, rfl, -⟩ := groupBy_string _ hmem g (hgroupBy g hg)
  obtain rfl : t.1 = table := htable
  exact nul_notMem_cellText (s.admits t ht row hrow col hcol) hcell

/-- The call that filters for the values of a group that is shown, and does not group, returns
the count shown for it. -/
theorem drill_down (laws : Counts backend) (htexts : ComparesTexts backend)
    (hnodup : groupBy.Nodup) (hne : groupBy ≠ []) (hpos : 1 ≤ cap) (hcap : cap < 2 ^ 63)
    {log log' : List (Statement F D)} {j : Json F}
    (hrun : (Call.aggregate table groupBy count column filters start stop cap).runOn backend py cal
      s log = .ok j log') :
    ∃ shown, j = .arr shown ∧ ∀ (ks : List Text) (n : ℕ), ks.length = groupBy.length →
      groupJson groupBy (ks.map some, n) ∈ shown → ∃ log'',
        (Call.aggregate table [] count column
            (some ((filters.getD .empty).update (groupBy.zip (ks.map .str)))) start stop cap).runOn
          backend py cal s log = .ok (.arr [.obj [(aggValue, .int n)]]) log'' := by
  obtain ⟨st, hst, rows, hrows, rfl, rfl⟩ := runOn_aggregate_eq_ok.mp hrun
  obtain ⟨members, top, hmembers, hsub, htop, hjson⟩ :=
    answer_groups laws hnodup hne hcap hst hrows
  refine ⟨_, rfl, fun ks n hlength hshown => ?_⟩
  obtain ⟨-, -, p, hp, hgroupBy, hkeys, c, hc, rfl⟩ := countStatement_eq_ok.mp hst
  have hmem := policy_validates table
  rw [hp] at hmem
  -- The group has a row, so its values are stored texts.
  rw [hjson] at hshown
  obtain ⟨g, hg, hsame⟩ := List.mem_map.mp hshown
  obtain ⟨hcount, hsize⟩ := htop.counts _ hg
  obtain ⟨first, hfirst, hkey⟩ := List.countP_pos_iff.mp (hcount ▸ hsize)
  have hkey : keyOf groupBy first = g.1 := of_decide_eq_true hkey
  have hsize : g.1.length = groupBy.length := by rw [← hkey, keyOf, List.length_map]
  obtain rfl := groupJson_inj hsize (by rw [List.length_map, hlength]) hsame
  have hnul := nul_notMem_key hp hgroupBy (hsub.subset hfirst) hkey
  have hvalues := (keyOf_eq_iff hlength first).mp hkey
  have hpairs : ∀ x ∈ groupBy.zip ks, x.1 ∈ p.groupBy ∧ nul ∉ x.2 := by
    intro x hx
    obtain ⟨hx, hx'⟩ := List.of_mem_zip hx
    exact ⟨hgroupBy _ hx, hnul _ hx'⟩
  have hdistinct : ((groupBy.zip ks).map Prod.fst).Nodup := by
    rwa [List.map_fst_zip hlength.ge]
  -- The filters with its texts are admitted.
  have hzip : groupBy.zip (ks.map (.str : Text → Json F)) =
      (groupBy.zip ks).map fun x => (x.1, .str x.2) := by
    rw [List.zip_map_right]
    rfl
  generalize hfilters : (filters.getD .empty).update (groupBy.zip (ks.map .str)) = filters'
  have hitems := items_update_texts hdistinct (filters.getD .empty)
  rw [← hzip, hfilters] at hitems
  have hlisted : ∀ k ∈ filters'.keys, k ∈ p.filterColumns := by
    intro k hk
    rw [Dict.keys, hitems, List.map_append, List.map_map, List.map_map] at hk
    rcases List.mem_append.mp hk with hk | hk
    · exact hkeys k hk
    · obtain ⟨x, hx, rfl⟩ := List.mem_map.mp hk
      exact groupBy_filter _ hmem _ (hpairs x (List.mem_of_mem_filter hx)).1
  have hmax : filters'.items.length ≤ maxFilters := by
    have hle := (filters'.nodup.subperm hlisted).length_le
    rw [List.length_map] at hle
    exact hle.trans (filterColumns_le _ hmem)
  obtain ⟨c', hc'⟩ := timeClause_ok_of hc (filterClauses filters')
  have hst' : aggregateStatement cal table [] count column (some filters') start stop cap =
      .ok ⟨aggregateSql table [] "count(*)".toList c'.conds cap, c'.params⟩ :=
    countStatement_eq_ok.mpr ⟨Nat.zero_le _, hmax, p, hp,
      fun g hg => absurd hg List.not_mem_nil, hlisted, c', hc', rfl⟩
  have hmembers' : (Call.aggregate table [] count column (some filters') start stop cap).selected
      backend cal s = .ok (members.filter fun row => keyOf groupBy row = ks.map some) := by
    rw [Call.selected, Call.statement, hst, ok_bind] at hmembers
    obtain ⟨a, ha, d, hd, hfilter⟩ := (selected_eq_filterRows hc hc).mp hmembers
    obtain ⟨a', ha', hreplaced⟩ := @filterTests_replaced F D N backend s table p htexts hp _ hpairs
      _ (hsub.subset hfirst) hvalues _ _ ha (passes_front (passes_of_mem hfilter hfirst))
    obtain ⟨b, hb, hfresh⟩ := @filterTests_texts F D N backend s table p htexts hp
      ((groupBy.zip ks).filter fun x => x.1 ∉ (filters.getD .empty).keys)
      fun x hx => hpairs x (List.mem_of_mem_filter hx)
    rw [Call.selected, Call.statement, hst', ok_bind]
    refine (selected_eq_filterRows hc' hc).mpr ⟨a' ++ b, ?_, d, hd,
      filterRows_refine (fun row hrow passed hpassed => ?_) hfilter⟩
    · rw [Option.getD_some, hitems, filterTests, List.mapM_append]
      exact bind_eq_ok.mpr ⟨a', ha', bind_eq_ok.mpr ⟨b, hb, rfl⟩⟩
    · obtain ⟨q, hq, hpassed⟩ := passes_append_eq_ok.mp hpassed
      have hboth := all_update hdistinct (filters.getD .empty) row
      simp only [keyOf_eq_iff hlength row, ← hboth]
      exact passes_refined (hreplaced row hrow q hq) (hfresh row hrow) hpassed
  obtain ⟨rows', hrows', hjson'⟩ := answer_total laws hpos hcap hst' hmembers'
  rw [← List.countP_eq_length_filter, ← hcount] at hjson'
  exact ⟨_, runOn_aggregate_eq_ok.mpr ⟨_, hst', rows', hrows', by rw [hjson'], rfl⟩⟩

end DrillDown

/-! ### The metric that counts -/

section Metric

variable {backend : Backend F D N} {py : Interpreter F} {cal : Calendar F D N} {s : State F D N}
  {severity service : Option Text} {filters : Dict Text (Json F)} {start stop : Option Text}

/-- The arguments of a metric, under the names of their columns. -/
def metricPairs (severity service : Option Text) : List (Text × Text) :=
  (severity.toList.map fun v => ("severity".toList, v)) ++
    service.toList.map fun v => ("service".toList, v)

/-- The filters of an aggregation that say what the arguments of a metric say. -/
def metricFilters (severity service : Option Text) : List (Text × Json F) :=
  (metricPairs severity service).map fun x => (x.1, .str x.2)

def metricClauses (severity service : Option Text) : Clauses F D :=
  (({ conds := ["1=1".toList] } : Clauses F D).bindText "severity = :sev".toList "sev".toList
    severity).bindText "service = :svc".toList "svc".toList service

theorem bindText_get? (c : Clauses F D) (cond name v : Text) :
    (c.bindText cond name (some v)).params.get? name = some (.value (.str v)) := by
  rw [Clauses.bindText, Clauses.bind, Dict.get?_set, if_pos rfl]

theorem bindText_get?_of_ne (c : Clauses F D) {cond name n : Text} (h : n ≠ name)
    (o : Option Text) : (c.bindText cond name o).params.get? n = c.params.get? n := by
  cases o with
  | none => rfl
  | some v => rw [Clauses.bindText, Clauses.bind, Dict.get?_set, if_neg h]

/-- A condition of an argument is that of its filter. -/
theorem bind_optional {engine : Engine (Cell F D N) (Param F D) Exn} {table col param : Text}
    {bound : Name → Option (Param F D)} {o : Option Text}
    (h : ∀ v ∈ o, bound param = some (.value (.str v))) :
    (optional o.isSome col ['='] param).mapM (bindCond engine table bound) =
      filterTests engine table (o.toList.map fun v => (col, .str v)) := by
  cases o with
  | none => rfl
  | some v =>
    have hparam := h v rfl
    rw [Option.isSome_some, optional, if_pos rfl, List.mapM_cons, bindCond, hparam]
    rfl

theorem filterRows_trivial {engine : Engine (Cell F D N) (Param F D) Exn}
    (tests : List (Test (Cell F D N))) (rows : List (Record (Cell F D N))) :
    filterRows engine (.trivial :: tests) rows = filterRows engine tests rows := by
  induction rows with
  | nil => rfl
  | cons row rows ih =>
    have hpasses : passes engine row (.trivial :: tests) = passes engine row tests := rfl
    rw [filterRows, filterRows, hpasses, ih]

/-- The metric selects what the aggregation selects. -/
theorem selected_metric {c₀ c c' : Clauses F D}
    (hc : timeClause cal incidents start stop (metricClauses severity service) = .ok c)
    (hc' : timeClause cal incidents start stop c₀ = .ok c') {members : List (Record (Cell F D N))}
    (h : ∃ a, filterTests backend.engine incidents (metricFilters severity service) = .ok a ∧
      ∃ b, (timeConds incidents start.isSome stop.isSome).mapM
          (bindCond backend.engine incidents c'.params.get?) = .ok b ∧
        filterRows backend.engine (a ++ b) (s.rows incidents) = .ok members) :
    Sql.selected backend.engine (Call.queryMetric (F := F) incidentCount severity service start
      stop).shape.select c.params.get? (s.rows incidents) = .ok members := by
  obtain ⟨a, ha, b, hb, hfilter⟩ := h
  obtain ⟨-, -, hothers⟩ := timeClause_params hc
  have hsev : ∀ v ∈ severity, c.params.get? "sev".toList = some (.value (.str v)) := by
    intro v hv
    obtain rfl := Option.mem_def.mp hv
    rw [hothers _ (by decide) (by decide), metricClauses, bindText_get?_of_ne _ (by decide)]
    exact bindText_get? _ _ _ v
  have hsvc : ∀ v ∈ service, c.params.get? "svc".toList = some (.value (.str v)) := by
    intro v hv
    obtain rfl := Option.mem_def.mp hv
    rw [hothers _ (by decide) (by decide), metricClauses]
    exact bindText_get? _ _ _ v
  have hfilters : (metricFilters severity service : List (Text × Json F)) =
      (severity.toList.map fun v => ("severity".toList, .str v)) ++
        service.toList.map fun v => ("service".toList, .str v) := by
    rw [metricFilters, metricPairs, List.map_append, List.map_map, List.map_map]
    rfl
  rw [hfilters, filterTests, List.mapM_append] at ha
  obtain ⟨a₁, ha₁, ha⟩ := bind_eq_ok.mp ha
  obtain ⟨a₂, ha₂, ha⟩ := bind_eq_ok.mp ha
  cases ha
  have htimes := @bind_timeConds F D N backend.engine incidents cal start stop _ _ _ _ hc hc'
    incidents
  rw [hb] at htimes
  have hbind : (argumentConds severity.isSome service.isSome start.isSome stop.isSome).mapM
      (bindCond backend.engine incidents c.params.get?) = .ok (.trivial :: (a₁ ++ a₂) ++ b) := by
    rw [argumentConds, List.mapM_append, List.mapM_append, List.mapM_append, bind_optional hsev,
      bind_optional hsvc, filterTests, filterTests, ha₁, ha₂, htimes]
    rfl
  apply bind_eq_ok.mpr
  refine ⟨_, hbind, ?_⟩
  rw [List.cons_append, filterRows_trivial]
  exact hfilter

/-- A text that is bound has no zero character. -/
theorem nul_notMem_of_bound {table : Text} {pairs : List (Text × Text)}
    {a : List (Test (Cell F D N))}
    (h : filterTests backend.engine table (pairs.map fun x => (x.1, .str x.2)) = .ok a) :
    ∀ x ∈ pairs, nul ∉ x.2 := by
  intro x hx hnul
  obtain ⟨e, he⟩ := backend.bind_nul table x.1 x.2 hnul
  obtain ⟨test, -, htest⟩ := exists_of_forall₂_left (mapM_eq_ok.mp h) (List.mem_map_of_mem hx)
  rw [he] at htest
  cases htest

/-- The order of the filters does not matter. -/
theorem filterRows_metric (htexts : ComparesTexts backend)
    (hitems : filters.items.Perm (metricFilters severity service))
    {b : Except Exn (List (Test (Cell F D N)))} {members : List (Record (Cell F D N))}
    (h : ∃ a, filterTests backend.engine incidents filters.items = .ok a ∧
      ∃ d, b = .ok d ∧ filterRows backend.engine (a ++ d) (s.rows incidents) = .ok members) :
    ∃ a, filterTests backend.engine incidents (metricFilters severity service) = .ok a ∧
      ∃ d, b = .ok d ∧ filterRows backend.engine (a ++ d) (s.rows incidents) = .ok members := by
  obtain ⟨a, ha, d, hd, hfilter⟩ := h
  obtain ⟨pairs, hpairs, hperm⟩ := exists_perm_of_perm_map hitems
  rw [hpairs] at ha
  obtain ⟨p, hp, hcolumns⟩ : ∃ p, policy incidents = .ok p ∧ "severity".toList ∈ p.groupBy ∧
      "service".toList ∈ p.groupBy := ⟨_, rfl, by decide, by decide⟩
  have hnul := nul_notMem_of_bound ha
  have htext : ∀ x ∈ metricPairs severity service, x.1 ∈ p.groupBy ∧ nul ∉ x.2 := by
    intro x hx
    refine ⟨?_, hnul x (hperm.mem_iff.mpr hx)⟩
    rcases List.mem_append.mp hx with hx | hx
    · obtain ⟨v, -, rfl⟩ := List.mem_map.mp hx
      exact hcolumns.1
    · obtain ⟨v, -, rfl⟩ := List.mem_map.mp hx
      exact hcolumns.2
  obtain ⟨a', ha', hpasses'⟩ := @filterTests_texts F D N backend s incidents p htexts hp _ htext
  obtain ⟨a'', ha'', hpasses⟩ := @filterTests_texts F D N backend s incidents p htexts hp pairs
    fun x hx => htext x (hperm.mem_iff.mp hx)
  cases ha.symm.trans ha''
  refine ⟨a', ha', d, hd, ?_⟩
  have hsame : ∀ row ∈ s.rows incidents, passes backend.engine row (a' ++ d) =
      passes backend.engine row (a ++ d) := by
    intro row hrow
    rw [passes_append, passes_append, hpasses row hrow, hpasses' row hrow, hperm.all_eq]
  have hkept := filterRows_refine (p := fun _ => true) (fun row hrow passed hpassed => by
    rw [hsame row hrow, hpassed, Bool.and_true]) hfilter
  rwa [List.filter_true] at hkept

/-- The metric of the incidents is what the aggregation counts with the same filters. -/
theorem metric_counts_incidents (laws : Counts backend) (htexts : ComparesTexts backend)
    {column : Option Text} {cap n : ℕ} (hpos : 1 ≤ cap) (hcap : cap < 2 ^ 63)
    (hitems : filters.items.Perm (metricFilters severity service)) {x : F}
    (hx : py.floatOfInt n = .ok x) {log log' : List (Statement F D)}
    (hrun : (Call.aggregate incidents [] count column (some filters) start stop cap).runOn backend
      py cal s log = .ok (.arr [.obj [(aggValue, .int n)]]) log') :
    ∃ log'', (Call.queryMetric incidentCount severity service start stop).runOn backend py cal s
      log = .ok (.obj [("metric".toList, .str incidentCount),
        ("filters".toList, .obj [("severity".toList, optText severity),
          ("service".toList, optText service), ("start".toList, optText start),
          ("end".toList, optText stop)]), ("value".toList, .float x)]) log'' := by
  obtain ⟨st, hst, rows, hrows, hjson, rfl⟩ := runOn_aggregate_eq_ok.mp hrun
  obtain ⟨-, -, -, -, -, -, c₁, hc₁, heq⟩ := countStatement_eq_ok.mp hst
  -- The aggregation has counted the selected rows.
  obtain ⟨-, outs, heval, -⟩ := answer_eq_ok.mp hrows
  obtain ⟨-, members, hmembers, -⟩ := eval_eq_ok.mp heval
  have hselected : (Call.aggregate incidents [] count column (some filters) start stop
      cap).selected backend cal s = .ok members := by
    rw [Call.selected, Call.statement, hst, ok_bind]
    exact hmembers
  obtain ⟨rows', hrows', hjson'⟩ := answer_total laws hpos hcap hst hselected
  cases hrows.symm.trans hrows'
  rw [hjson'] at hjson
  have hn : members.length = n := by simpa using hjson
  -- The metric selects the same rows.
  obtain ⟨c, hc⟩ := timeClause_ok_of hc₁ (metricClauses severity service)
  have hmetric : queryMetricStatement cal incidentCount severity service start stop =
      .ok ⟨metricSql incidentCount (join " AND ".toList c.conds), c.params⟩ :=
    bind_eq_ok.mpr ⟨(), rfl, bind_eq_ok.mpr ⟨c, hc, rfl⟩⟩
  have hstatement : (Call.queryMetric (F := F) incidentCount severity service start
      stop).statement cal =
        .ok ⟨metricSql incidentCount (join " AND ".toList c.conds), c.params⟩ := hmetric
  have hissued := statement_validates cal (Call.queryMetric (F := F) incidentCount severity service
    start stop)
  rw [hstatement] at hissued
  subst heq
  have hselects := selected_metric hc hc₁ (filterRows_metric htexts hitems
    ((selected_eq_filterRows hc₁ hc₁).mp hmembers))
  have hreturned : results backend.engine (columnsOf incidents) (Call.queryMetric (F := F)
      incidentCount severity service start stop).shape.select members =
        .ok [[(value, backend.engine.count members.length)]] :=
    results_total backend.engine rfl rfl members
  rw [laws.count, hn] at hreturned
  obtain ⟨row, hrow, hrowItems⟩ := backend.mapping_nodup
    [(value, (.value (.int n) : Cell F D N))] (List.nodup_singleton _)
  have hanswer : backend.answer s (Call.queryMetric (F := F) incidentCount severity service start
      stop).shape.select ⟨metricSql incidentCount (join " AND ".toList c.conds), c.params⟩ =
        .ok [row] := by
    apply answer_eq_ok.mpr
    refine ⟨hissued.sql, _, eval_eq_ok.mpr ⟨hissued.admitted.contained, members, hselects, _,
      hreturned, _, rfl, rfl⟩, ?_⟩
    rw [List.mapM_cons, hrow]
    rfl
  have hcell : row.get? "value".toList = some (.value (.int n)) := by
    rw [Dict.get?, hrowItems]
    rfl
  refine ⟨_, query_eq_ok.mpr ⟨_, hmetric, [row], ?_, ?_, rfl⟩⟩
  · rw [backend.session_append, hanswer]
  · simp only [metricResult, McpServer.column, hcell, Option.elim_some, ok_bind, toFloat,
      Json.toFloat, hx]
    rfl

end Metric

theorem compares_countBackend {D : Type} : ComparesTexts (countBackend D) := by
  intro t ht col hcol hstring k hk
  refine ⟨.value (.str k), countEngine_bind hk, fun c => ?_⟩
  cases c with
  | none => rfl
  | some c => simp [countBackend, countEngine, textCell]

def urgent : Dict Text (Json Unit) := .ofList [("priority".toList, .str "P1".toList)]

set_option maxRecDepth 2000 in
/-- From the statuses and priorities of the urgent tickets into the two that are open; a third
open ticket is not urgent. -/
theorem drill_down_open : ∃ log,
    (Call.aggregate tickets [] count none (some (urgent.update (["status".toList,
        "priority".toList].zip (["open".toList, "P1".toList].map .str)))) none none (5 : ℕ)).runOn
          (countBackend Unit) plainInterpreter plainCalendar sampleState [] =
      .ok (.arr [.obj [(aggValue, .int (2 : ℕ))]]) log := by
  have hrun : ∃ log, (Call.aggregate tickets ["status".toList, "priority".toList] count none
      (some urgent) none none (5 : ℕ)).runOn (countBackend Unit) plainInterpreter plainCalendar
        sampleState [] = .ok (.arr [
          groupJson ["status".toList, "priority".toList] (["open".toList, "P1".toList].map some, 2),
          groupJson ["status".toList, "priority".toList] (["closed".toList, "P1".toList].map some,
            1)]) log := ⟨_, rfl⟩
  obtain ⟨log, hrun⟩ := hrun
  obtain ⟨shown, hshown, hdrill⟩ := drill_down counts_countBackend compares_countBackend
    (by decide) (by decide) (by decide) (by decide) hrun
  cases hshown
  exact hdrill ["open".toList, "P1".toList] 2 rfl List.mem_cons_self

/-- Two of four incidents have the highest severity and the service, whichever filter comes
first. -/
theorem metric_counts_incidents_auth : ∃ log,
    (Call.queryMetric incidentCount (some "P1".toList) (some "auth".toList) none none).runOn
        (countBackend Unit) plainInterpreter plainCalendar sampleState [] =
      .ok (.obj [("metric".toList, .str incidentCount),
        ("filters".toList, .obj [("severity".toList, optText (some "P1".toList)),
          ("service".toList, optText (some "auth".toList)), ("start".toList, optText none),
          ("end".toList, optText none)]), ("value".toList, .float ())]) log := by
  have hrun : ∃ log, (Call.aggregate incidents [] count none
      (some (.ofList [("service".toList, .str "auth".toList),
        ("severity".toList, .str "P1".toList)])) none none (5 : ℕ)).runOn
        (countBackend Unit) plainInterpreter plainCalendar sampleState [] =
          .ok (.arr [.obj [(aggValue, .int (2 : ℕ))]]) log := ⟨_, rfl⟩
  obtain ⟨log, hrun⟩ := hrun
  have hitems : (Dict.ofList [("service".toList, (.str "auth".toList : Json Unit)),
      ("severity".toList, .str "P1".toList)]).items.Perm
        (metricFilters (some "P1".toList) (some "auth".toList)) := .swap _ _ _
  exact metric_counts_incidents counts_countBackend compares_countBackend (by decide) (by decide)
    hitems rfl hrun

end GroundedOps.McpServer
