import GroundedOps.Library.Lists
import Mathlib.Data.List.Basic
import Mathlib.Tactic

/-!
# Select statements with named parameters

A small grammar of select statements, their text, the identifiers in it, and the
scanner a driver uses to find the `:name` placeholders. Identifiers are interpolated
into the text, values only occur as placeholders: for statements over clean
identifiers the scanner finds exactly the parameters of the conditions.
-/

namespace GroundedOps.Sql

abbrev Name := List Char

def isWord (c : Char) : Bool := c.isAlphanum || c == '_'

/-- The name behind a colon. It must not be followed by another colon, which costs a
longer name its last character. -/
def bindName (s : Name) : Option Name :=
  let w := s.takeWhile isWord
  match (s.dropWhile isWord).head? with
  | some ':' => if 2 ≤ w.length then some w.dropLast else none
  | _ => if w.isEmpty then none else some w

/-- A colon behind one of these characters does not start a placeholder. -/
def blocks (c : Char) : Bool := isWord c || c == ':' || c == '\\'

/-- The names of the placeholders, in order; `prev` is the character in front of the text. -/
def placeholdersFrom : Option Char → Name → List Name
  | _, [] => []
  | prev, c :: s =>
    if c = ':' ∧ ¬ prev.any blocks then
      (bindName s).toList ++ placeholdersFrom (some c) s
    else placeholdersFrom (some c) s

def placeholders (s : Name) : List Name := placeholdersFrom none s

/-- A text in which no placeholder can start. -/
def Clean (s : Name) : Prop := ':' ∉ s

instance (s : Name) : Decidable (Clean s) := inferInstanceAs (Decidable (':' ∉ s))

@[simp] theorem clean_nil : Clean [] := by simp [Clean]

@[simp] theorem clean_cons {c : Char} {s : Name} : Clean (c :: s) ↔ c ≠ ':' ∧ Clean s := by
  simp [Clean, eq_comm]

@[simp] theorem clean_append {s t : Name} : Clean (s ++ t) ↔ Clean s ∧ Clean t := by
  simp [Clean]

theorem clean_intercalate {sep : Name} {parts : List Name} (hsep : Clean sep)
    (hparts : ∀ p ∈ parts, Clean p) : Clean (sep.intercalate parts) :=
  intercalate_of_append clean_nil (fun _ _ hs ht => clean_append.mpr ⟨hs, ht⟩) hsep hparts

/-- Only a colon at the head of the text looks at the character before it. -/
theorem placeholdersFrom_prev (p q : Option Char) {s : Name} (h : s.head? ≠ some ':') :
    placeholdersFrom p s = placeholdersFrom q s := by
  cases s with
  | nil => rfl
  | cons c s =>
    have hc : c ≠ ':' := by simpa using h
    simp [placeholdersFrom, hc]

theorem placeholdersFrom_clean {u v : Name} (hu : Clean u) (hv : v.head? ≠ some ':')
    (p : Option Char) : placeholdersFrom p (u ++ v) = placeholdersFrom none v := by
  induction u generalizing p with
  | nil => exact placeholdersFrom_prev p none hv
  | cons c u ih =>
    obtain ⟨hc, hu⟩ := clean_cons.mp hu
    simpa [placeholdersFrom, hc] using ih hu _

/-- A name that a placeholder can have. -/
def ParamName (name : Name) : Prop := name ≠ [] ∧ ∀ c ∈ name, isWord c = true

instance (name : Name) : Decidable (ParamName name) :=
  decidable_of_iff (name ≠ [] ∧ name.all isWord = true) (by simp [ParamName])

theorem ParamName.clean {name : Name} (h : ParamName name) : Clean name := by
  intro hm
  exact absurd (h.2 _ hm) (by decide)

/-- Where a placeholder may end. -/
def Break (s : Name) : Prop := ∀ c, s.head? = some c → isWord c = false ∧ c ≠ ':'

theorem Break.head_ne {s : Name} (h : Break s) : s.head? ≠ some ':' := fun hs => (h _ hs).2 rfl

theorem bindName_append {name v : Name} (hname : ParamName name) (hv : Break v) :
    bindName (name ++ v) = some name := by
  have htail : v.takeWhile isWord = [] ∧ v.dropWhile isWord = v := by
    cases v with
    | nil => exact ⟨rfl, rfl⟩
    | cons c v => simp [(hv c rfl).1]
  have htake : (name ++ v).takeWhile isWord = name := by
    rw [List.takeWhile_append_of_pos hname.2, htail.1, List.append_nil]
  have hdrop : (name ++ v).dropWhile isWord = v := by
    rw [List.dropWhile_append_of_pos hname.2, htail.2]
  have hempty : name.isEmpty = false := by simpa using hname.1
  unfold bindName
  simp only [htake, hdrop, hempty]
  split
  · next h => exact absurd h hv.head_ne
  · rfl

/-- A placeholder behind a blank is found, and the scan goes on behind it. -/
theorem placeholdersFrom_param {u name v : Name} (hu : Clean u) (hname : ParamName name)
    (hv : Break v) (p : Option Char) :
    placeholdersFrom p (u ++ ' ' :: ':' :: (name ++ v)) = name :: placeholdersFrom none v := by
  induction u generalizing p with
  | nil =>
    have hblank : (some ' ').any blocks = false := by decide
    have hrest := placeholdersFrom_clean hname.clean hv.head_ne (some ':')
    simp [placeholdersFrom, hblank, bindName_append hname hv, hrest]
  | cons c u ih =>
    obtain ⟨hc, hu⟩ := clean_cons.mp hu
    simpa [placeholdersFrom, hc] using ih hu _

/-! ### Statements -/

inductive Expr
  | column (name : Name)
  | all
  | countAll
  | aggregate (fn column : Name)
  | average (arg : Expr)
  | median (arg : Expr)
  | minutes (later earlier : Name)
  | truncated (unit column : Name)

namespace Expr

def render : Expr → Name
  | .column name => name
  | .all => ['*']
  | .countAll => "count(*)".toList
  | .aggregate fn col => fn ++ '(' :: col ++ [')']
  | .average arg => "avg(".toList ++ arg.render ++ [')']
  | .median arg => "percentile_cont(0.5) WITHIN GROUP (ORDER BY ".toList ++ arg.render ++ [')']
  | .minutes later earlier =>
    "extract(epoch from (".toList ++ later ++ " - ".toList ++ earlier ++ ")) / 60.0".toList
  | .truncated unit col => "date_trunc('".toList ++ unit ++ "', ".toList ++ col ++ [')']

theorem render_column (name : Name) : (column name).render = name := rfl

theorem render_all : all.render = ['*'] := rfl

theorem render_aggregate (fn col : Name) :
    (aggregate fn col).render = fn ++ '(' :: col ++ [')'] := rfl

theorem render_average (arg : Expr) :
    (average arg).render = "avg(".toList ++ arg.render ++ [')'] := rfl

theorem render_minutes (later earlier : Name) :
    (minutes later earlier).render = "extract(epoch from (".toList ++ later ++ " - ".toList ++
      earlier ++ ")) / 60.0".toList := rfl

theorem render_truncated (unit col : Name) :
    (truncated unit col).render = "date_trunc('".toList ++ unit ++ "', ".toList ++ col ++ [')'] :=
  rfl

def columns : Expr → List Name
  | .column name => [name]
  | .all | .countAll => []
  | .aggregate _ col => [col]
  | .average arg | .median arg => arg.columns
  | .minutes later earlier => [later, earlier]
  | .truncated _ col => [col]

/-- The aggregate functions an expression calls. -/
def aggregates : Expr → List Name
  | .countAll => ["count".toList]
  | .aggregate fn _ => [fn]
  | .average arg => "avg".toList :: arg.aggregates
  | .median arg => "percentile_cont".toList :: arg.aggregates
  | _ => []

def units : Expr → List Name
  | .average arg | .median arg => arg.units
  | .truncated unit _ => [unit]
  | _ => []

theorem clean_render {e : Expr} (hcolumns : ∀ c ∈ e.columns, Clean c)
    (haggregates : ∀ f ∈ e.aggregates, Clean f) (hunits : ∀ u ∈ e.units, Clean u) :
    Clean e.render := by
  induction e with
  | column name => exact hcolumns name (by simp [columns])
  | all => decide
  | countAll => decide
  | aggregate fn col =>
    have hfn := haggregates fn (by simp [aggregates])
    have hcol := hcolumns col (by simp [columns])
    exact clean_append.mpr ⟨clean_append.mpr ⟨hfn, clean_cons.mpr ⟨by decide, hcol⟩⟩, by decide⟩
  | average arg ih =>
    have harg := ih hcolumns (fun f hf => haggregates f (by simp [aggregates, hf])) hunits
    exact clean_append.mpr ⟨clean_append.mpr ⟨by decide, harg⟩, by decide⟩
  | median arg ih =>
    have harg := ih hcolumns (fun f hf => haggregates f (by simp [aggregates, hf])) hunits
    exact clean_append.mpr ⟨clean_append.mpr ⟨by decide, harg⟩, by decide⟩
  | minutes later earlier =>
    have hlater := hcolumns later (by simp [columns])
    have hearlier := hcolumns earlier (by simp [columns])
    refine clean_append.mpr ⟨clean_append.mpr ⟨clean_append.mpr ⟨clean_append.mpr ⟨?_, hlater⟩, ?_⟩,
      hearlier⟩, ?_⟩ <;> decide
  | truncated unit col =>
    have hunit := hunits unit (by simp [units])
    have hcol := hcolumns col (by simp [columns])
    refine clean_append.mpr ⟨clean_append.mpr ⟨clean_append.mpr ⟨clean_append.mpr ⟨?_, hunit⟩, ?_⟩,
      hcol⟩, ?_⟩ <;> decide

end Expr

inductive Cond
  | trivial
  | isNull (column : Name)
  | isNotNull (column : Name)
  | compare (column op param : Name)

namespace Cond

def render : Cond → Name
  | .trivial => "1=1".toList
  | .isNull col => col ++ " IS NULL".toList
  | .isNotNull col => col ++ " IS NOT NULL".toList
  | .compare col op param => col ++ ' ' :: op ++ ' ' :: ':' :: param

def columns : Cond → List Name
  | .trivial => []
  | .isNull col | .isNotNull col => [col]
  | .compare col _ _ => [col]

def params : Cond → List Name
  | .compare _ _ param => [param]
  | _ => []

def ops : Cond → List Name
  | .compare _ op _ => [op]
  | _ => []

/-- Conditions over clean identifiers, with a proper parameter name. -/
def Safe : Cond → Prop
  | .trivial => True
  | .isNull col | .isNotNull col => Clean col
  | .compare col op param => Clean col ∧ Clean op ∧ ParamName param

theorem safe_of_clean {c : Cond} (hcolumns : ∀ n ∈ c.columns, Clean n) (hops : ∀ n ∈ c.ops, Clean n)
    (hparams : ∀ n ∈ c.params, ParamName n) : c.Safe := by
  cases c with
  | trivial => trivial
  | isNull col => exact hcolumns col (by simp [columns])
  | isNotNull col => exact hcolumns col (by simp [columns])
  | compare col op param =>
    exact ⟨hcolumns col (by simp [columns]), hops op (by simp [ops]), hparams param (by simp [params])⟩

theorem placeholdersFrom_render {c : Cond} (hc : c.Safe) {u v : Name} (hu : Clean u)
    (hv : Break v) (p : Option Char) :
    placeholdersFrom p (u ++ (c.render ++ v)) = c.params ++ placeholdersFrom none v := by
  have hplain : ∀ t, Clean t → placeholdersFrom p (u ++ (t ++ v)) = placeholdersFrom none v := by
    intro t ht
    rw [← List.append_assoc]
    exact placeholdersFrom_clean (by simp [hu, ht]) hv.head_ne p
  cases c with
  | trivial => exact hplain _ (by decide)
  | isNull col => exact hplain _ (clean_append.mpr ⟨hc, by decide⟩)
  | isNotNull col => exact hplain _ (clean_append.mpr ⟨hc, by decide⟩)
  | compare col op param =>
    obtain ⟨hcol, hop, hparam⟩ := hc
    have htext : Clean (u ++ (col ++ ' ' :: op)) := by simp [hu, hcol, hop]
    have h := placeholdersFrom_param htext hparam hv p
    simpa [render, params] using h

end Cond

/-- A select statement. `order` is the text of the ordering, `limit` that of the row cap. -/
structure Select where
  items : List (Expr × Option Name)
  table : Name
  conds : List Cond
  groupBy : List Name := []
  order : Option Name := none
  limit : Option Name := none

namespace Select

def renderItem : Expr × Option Name → Name
  | (e, none) => e.render
  | (e, some label) => e.render ++ " AS ".toList ++ label

def renderItems (items : List (Expr × Option Name)) : Name :=
  ", ".toList.intercalate (items.map renderItem)

def renderConds (conds : List Cond) : Name := " AND ".toList.intercalate (conds.map Cond.render)

def renderTail (q : Select) : Name :=
  (if q.groupBy.isEmpty then [] else " GROUP BY ".toList ++ ", ".toList.intercalate q.groupBy) ++
    (q.order.elim [] fun o => " ORDER BY ".toList ++ o) ++
    q.limit.elim [] fun n => " LIMIT ".toList ++ n

def render (q : Select) : Name :=
  "SELECT ".toList ++ renderItems q.items ++ " FROM ".toList ++ q.table ++
    (if q.conds.isEmpty then [] else " WHERE ".toList ++ renderConds q.conds) ++ q.renderTail

def columns (q : Select) : List Name :=
  q.items.flatMap (fun p => p.1.columns) ++ q.conds.flatMap Cond.columns

def aggregates (q : Select) : List Name := q.items.flatMap fun p => p.1.aggregates

def units (q : Select) : List Name := q.items.flatMap fun p => p.1.units

def params (q : Select) : List Name := q.conds.flatMap Cond.params

/-- No value is interpolated: identifiers, ordering and cap are clean. -/
structure Safe (q : Select) : Prop where
  items : ∀ p ∈ q.items, Clean (renderItem p)
  table : Clean q.table
  conds : ∀ c ∈ q.conds, c.Safe
  groupBy : ∀ g ∈ q.groupBy, Clean g
  order : ∀ o, q.order = some o → Clean o
  limit : ∀ n, q.limit = some n → Clean n

/-- The parts of a statement that are neither identifiers nor parameters. -/
structure Framed (q : Select) : Prop where
  labels : ∀ p ∈ q.items, ∀ l ∈ p.2, Clean l
  ops : ∀ c ∈ q.conds, ∀ op ∈ c.ops, Clean op
  params : ∀ n ∈ q.params, ParamName n
  order : ∀ o ∈ q.order, Clean o
  limit : ∀ n ∈ q.limit, Clean n

theorem Framed.safe {q : Select} (h : q.Framed) (htable : Clean q.table)
    (hcolumns : ∀ c ∈ q.columns, Clean c) (hgroupBy : ∀ g ∈ q.groupBy, Clean g)
    (haggregates : ∀ f ∈ q.aggregates, Clean f) (hunits : ∀ u ∈ q.units, Clean u) : q.Safe where
  items := by
    rintro ⟨e, label⟩ hp
    have he : Clean e.render := Expr.clean_render
      (fun c hc => hcolumns c (List.mem_append_left _ (List.mem_flatMap_of_mem hp hc)))
      (fun f hf => haggregates f (List.mem_flatMap_of_mem hp hf))
      (fun u hu => hunits u (List.mem_flatMap_of_mem hp hu))
    cases label with
    | none => exact he
    | some l =>
      exact clean_append.mpr ⟨clean_append.mpr ⟨he, by decide⟩, h.labels _ hp l rfl⟩
  table := htable
  conds := fun c hc => Cond.safe_of_clean
    (fun n hn => hcolumns n (List.mem_append_right _ (List.mem_flatMap_of_mem hc hn)))
    (h.ops c hc) (fun n hn => h.params n (List.mem_flatMap_of_mem hc hn))
  groupBy := hgroupBy
  order := h.order
  limit := h.limit

theorem placeholdersFrom_renderConds {conds : List Cond} (hne : conds ≠ [])
    (hconds : ∀ c ∈ conds, c.Safe) {u v : Name} (hu : Clean u) (hv : Break v) (p : Option Char) :
    placeholdersFrom p (u ++ (renderConds conds ++ v)) =
      conds.flatMap Cond.params ++ placeholdersFrom none v := by
  induction conds generalizing u p with
  | nil => exact absurd rfl hne
  | cons c conds ih =>
    cases conds with
    | nil =>
      simpa [renderConds] using Cond.placeholdersFrom_render (hconds c (by simp)) hu hv p
    | cons c' conds =>
      have hsep : Clean " AND ".toList := by decide
      have hbreak : Break (" AND ".toList ++ (renderConds (c' :: conds) ++ v)) := by
        intro d hd
        obtain rfl : ' ' = d := by simpa using hd
        exact ⟨by decide, by decide⟩
      have hrest := ih (by simp) (fun x hx => hconds x (by simp [hx])) hsep none
      have hfirst := Cond.placeholdersFrom_render (hconds c (by simp)) hu hbreak p
      have hshape : renderConds (c :: c' :: conds) ++ v =
          c.render ++ (" AND ".toList ++ (renderConds (c' :: conds) ++ v)) := by
        simp [renderConds]
      rw [hshape, hfirst, hrest]
      simp

theorem clean_renderTail {q : Select} (h : q.Safe) : Clean q.renderTail := by
  refine clean_append.mpr ⟨clean_append.mpr ⟨?_, ?_⟩, ?_⟩
  · split
    · exact clean_nil
    · exact clean_append.mpr ⟨by decide, clean_intercalate (by decide) h.groupBy⟩
  · cases ho : q.order with
    | none => exact clean_nil
    | some o => exact clean_append.mpr ⟨by decide, h.order o ho⟩
  · cases hn : q.limit with
    | none => exact clean_nil
    | some n => exact clean_append.mpr ⟨by decide, h.limit n hn⟩

theorem break_renderTail (q : Select) : Break q.renderTail := by
  have hblank : ∀ s : Name, Break (' ' :: s) := by
    intro s d hd
    obtain rfl : ' ' = d := by simpa using hd
    exact ⟨by decide, by decide⟩
  have hnil : Break [] := by
    intro d hd
    cases hd
  unfold renderTail
  by_cases hg : q.groupBy.isEmpty = true
  · cases q.order <;> cases q.limit <;> simp only [hg, if_true, List.nil_append, Option.elim]
    · exact hnil
    · exact hblank _
    · exact hblank _
    · exact hblank _
  · rw [if_neg hg]
    exact hblank _

/-- The scanner finds the parameters of the conditions, in order, and nothing else. -/
theorem placeholders_render {q : Select} (h : q.Safe) : placeholders q.render = q.params := by
  have hitems : Clean (renderItems q.items) := by
    refine clean_intercalate (by decide) fun p hp => ?_
    obtain ⟨item, hitem, rfl⟩ := List.mem_map.mp hp
    exact h.items item hitem
  have hhead : Clean ("SELECT ".toList ++ renderItems q.items ++ " FROM ".toList ++ q.table) :=
    clean_append.mpr ⟨clean_append.mpr ⟨clean_append.mpr ⟨by decide, hitems⟩, by decide⟩, h.table⟩
  have htail : placeholdersFrom none q.renderTail = [] := by
    simpa [placeholdersFrom] using
      placeholdersFrom_clean (clean_renderTail h) (v := []) (by simp) none
  unfold placeholders render
  by_cases hc : q.conds = []
  · have hparams : q.params = [] := by simp [params, hc]
    rw [hc, List.isEmpty_nil, if_pos rfl, List.append_nil, hparams,
      placeholdersFrom_clean hhead (break_renderTail q).head_ne, htail]
  · have hwhere : Clean ("SELECT ".toList ++ renderItems q.items ++ " FROM ".toList ++ q.table ++
        " WHERE ".toList) := clean_append.mpr ⟨hhead, by decide⟩
    have hconds := placeholdersFrom_renderConds hc h.conds hwhere (break_renderTail q) none
    rw [htail, List.append_nil] at hconds
    rw [if_neg (by simpa using hc), params, ← hconds]
    simp only [List.append_assoc]

end Select

end GroundedOps.Sql
