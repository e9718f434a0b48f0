import GroundedOps.Python.Text
import Mathlib.Data.List.Sort

/-!
# Values decoded from JSON

`Json` is the type of the values `json.loads` produces; `F` stands for the
floating point numbers. Members of an object keep their insertion order.
`dumps` writes a value with the default separators, escapes everything outside
printable ASCII, and optionally sorts the members of every object by key.
-/

namespace GroundedOps.Python

inductive Json (F : Type)
  | null
  | bool (b : Bool)
  | int (n : ℤ)
  | float (x : F)
  | str (s : Text)
  | arr (items : List (Json F))
  | obj (members : List (Text × Json F))

variable {F : Type}

def strInt (n : ℤ) : Text := if n < 0 then '-' :: str n.natAbs else str n.natAbs

def hexDigit (n : ℕ) : Char := "0123456789abcdef".toList.getD n '0'

def unicodeEscape (n : ℕ) : Text :=
  '\\' :: 'u' :: [hexDigit (n / 0x1000 % 16), hexDigit (n / 0x100 % 16), hexDigit (n / 0x10 % 16),
    hexDigit (n % 16)]

/-- One character of a string literal, in ASCII. -/
def escapeChar (c : Char) : Text :=
  if c = '"' then ['\\', '"']
  else if c = '\\' then ['\\', '\\']
  else if c = '\n' then ['\\', 'n']
  else if c = '\r' then ['\\', 'r']
  else if c = '\t' then ['\\', 't']
  else if c.toNat = 0x0c then ['\\', 'f']
  else if c.toNat = 0x08 then ['\\', 'b']
  else if 0x20 ≤ c.toNat ∧ c.toNat ≤ 0x7e then [c]
  else if c.toNat < 0x10000 then unicodeEscape c.toNat
  else unicodeEscape (0xd800 + (c.toNat - 0x10000) / 0x400) ++
    unicodeEscape (0xdc00 + (c.toNat - 0x10000) % 0x400)

def quote (s : Text) : Text := '"' :: s.flatMap escapeChar ++ ['"']

def KeyLE {K α : Type} [LE K] (a b : K × α) : Prop := a.1 ≤ b.1

instance {K α : Type} [LE K] [DecidableLE K] : DecidableRel (KeyLE (K := K) (α := α)) :=
  fun a b => inferInstanceAs (Decidable (a.1 ≤ b.1))

/-- `sorted` on the items of a dictionary, whose keys decide. -/
def sortItems {K α : Type} [LE K] [DecidableLE K] (items : List (K × α)) : List (K × α) :=
  items.insertionSort KeyLE

/-! ### Sorted items -/

section Sorting

variable {K α : Type}

theorem sortItems_map {L β : Type} [LE K] [DecidableLE K] [LE L] [DecidableLE L] {g : K → L}
    (hg : ∀ a b, g a ≤ g b ↔ a ≤ b) (f : α → β) (items : List (K × α)) :
    sortItems (items.map fun p => (g p.1, f p.2)) =
      (sortItems items).map fun p => (g p.1, f p.2) :=
  (List.map_insertionSort KeyLE KeyLE (fun p : K × α => (g p.1, f p.2)) items
    fun a _ b _ => (hg a.1 b.1).symm).symm

theorem sortItems_map_snd {β : Type} [LE K] [DecidableLE K] (f : α → β) (items : List (K × α)) :
    sortItems (items.map fun p => (p.1, f p.2)) =
      (sortItems items).map fun p => (p.1, f p.2) :=
  sortItems_map (g := id) (fun _ _ => .rfl) f items

variable [LinearOrder K]

theorem perm_sortItems (items : List (K × α)) : (sortItems items).Perm items :=
  List.perm_insertionSort KeyLE items

theorem pairwise_sortItems (items : List (K × α)) : (sortItems items).Pairwise KeyLE := by
  have htotal : Std.Total (KeyLE (K := K) (α := α)) := ⟨fun a b => le_total a.1 b.1⟩
  have htrans : IsTrans (K × α) KeyLE := ⟨fun _ _ _ hab hbc => le_trans hab hbc⟩
  exact List.pairwise_insertionSort KeyLE items

/-- Items with distinct keys are sorted in one way only. -/
theorem sortItems_eq_of_perm {items others : List (K × α)} (h : items.Perm others)
    (hnodup : (items.map Prod.fst).Nodup) : sortItems items = sortItems others := by
  have hperm : (sortItems items).Perm (sortItems others) :=
    (perm_sortItems items).trans (h.trans (perm_sortItems others).symm)
  apply hperm.eq_of_pairwise _ (pairwise_sortItems items) (pairwise_sortItems others)
  intro a b ha hb hab hba
  have ha' := (perm_sortItems items).mem_iff.mp ha
  have hb' := h.mem_iff.mpr ((perm_sortItems others).mem_iff.mp hb)
  exact List.inj_on_of_nodup_map hnodup ha' hb' (le_antisymm hab hba)

end Sorting

/-- The conversions the model leaves to the interpreter. -/
structure Interpreter (F : Type) where
  loads : Text → Except Exn (Json F)
  dumpsFloat : F → Text
  reprFloat : F → Text
  reprStr : Text → Text
  zero : F
  isZero : F → Bool
  floatOfInt : ℤ → Except Exn F
  floatOfText : Text → Except Exn F
  intOfFloat : F → Except Exn ℤ

/-- An interpreter for runs in which no floating point number and no JSON text occurs. -/
def plainInterpreter : Interpreter Unit where
  loads _ := .error .valueError
  dumpsFloat _ := "0.0".toList
  reprFloat _ := "0.0".toList
  reprStr s := '\'' :: s ++ ['\'']
  zero := ()
  isZero _ := true
  floatOfInt _ := .ok ()
  floatOfText _ := .ok ()
  intOfFloat _ := .ok 0

variable (py : Interpreter F)

namespace Json

mutual

/-- `json.dumps(value, sort_keys=sort)` -/
def dumps (sort : Bool) : Json F → Text
  | .null => "null".toList
  | .bool b => if b then "true".toList else "false".toList
  | .int n => strInt n
  | .float x => py.dumpsFloat x
  | .str s => quote s
  | .arr items => '[' :: join ", ".toList (dumpsItems sort items) ++ [']']
  | .obj members =>
    let written := dumpsMembers sort members
    let ordered := if sort then sortItems written else written
    '{' :: join ", ".toList (ordered.map fun p => quote p.1 ++ ": ".toList ++ p.2) ++ ['}']

def dumpsItems (sort : Bool) : List (Json F) → List Text
  | [] => []
  | v :: items => dumps sort v :: dumpsItems sort items

def dumpsMembers (sort : Bool) : List (Text × Json F) → List (Text × Text)
  | [] => []
  | (k, v) :: members => (k, dumps sort v) :: dumpsMembers sort members

end

mutual

/-- The value with the members of all its objects sorted by key. Two values are
equal as JSON documents exactly if these forms coincide. -/
def canon : Json F → Json F
  | .null => .null
  | .bool b => .bool b
  | .int n => .int n
  | .float x => .float x
  | .str s => .str s
  | .arr items => .arr (canonItems items)
  | .obj members => .obj (sortItems (canonMembers members))

def canonItems : List (Json F) → List (Json F)
  | [] => []
  | v :: items => canon v :: canonItems items

def canonMembers : List (Text × Json F) → List (Text × Json F)
  | [] => []
  | (k, v) :: members => (k, canon v) :: canonMembers members

end

mutual

/-- `repr(value)` -/
def repr : Json F → Text
  | .null => "None".toList
  | .bool b => if b then "True".toList else "False".toList
  | .int n => strInt n
  | .float x => py.reprFloat x
  | .str s => py.reprStr s
  | .arr items => '[' :: join ", ".toList (reprItems items) ++ [']']
  | .obj members => '{' :: join ", ".toList (reprMembers members) ++ ['}']

def reprItems : List (Json F) → List Text
  | [] => []
  | v :: items => repr v :: reprItems items

def reprMembers : List (Text × Json F) → List Text
  | [] => []
  | (k, v) :: members => (py.reprStr k ++ ": ".toList ++ repr v) :: reprMembers members

end

/-- `str(value)` -/
def toStr : Json F → Text
  | .str s => s
  | v => repr py v

/-- The truth value of a value. -/
def truthy : Json F → Bool
  | .null => false
  | .bool b => b
  | .int n => n != 0
  | .float x => !py.isZero x
  | .str s => !s.isEmpty
  | .arr items => !items.isEmpty
  | .obj members => !members.isEmpty

/-- `int(value)` -/
def toInt : Json F → Except Exn ℤ
  | .bool b => .ok (if b then 1 else 0)
  | .int n => .ok n
  | .float x => py.intOfFloat x
  | .str s => Python.int s
  | _ => .error .typeError

/-- `float(value)` -/
def toFloat : Json F → Except Exn F
  | .bool b => py.floatOfInt (if b then 1 else 0)
  | .int n => py.floatOfInt n
  | .float x => .ok x
  | .str s => py.floatOfText s
  | _ => .error .typeError

/-- `members.get(key)` -/
def lookup (key : Text) (members : List (Text × Json F)) : Option (Json F) :=
  (members.find? fun p => p.1 == key).map Prod.snd

/-! ### Sorted members -/

theorem dumpsMembers_eq_map (sort : Bool) (members : List (Text × Json F)) :
    dumpsMembers py sort members = members.map fun p => (p.1, dumps py sort p.2) := by
  induction members with
  | nil => rfl
  | cons p members ih => rw [dumpsMembers, ih, List.map_cons]

mutual

/-- Sorting while writing and writing the sorted form are the same. -/
theorem dumps_canon (v : Json F) : dumps py false (canon v) = dumps py true v := by
  cases v with
  | arr items => simp only [canon, dumps, dumpsItems_canon items]
  | obj members =>
    have hmembers : sortItems (dumpsMembers py true members) =
        dumpsMembers py false (sortItems (canonMembers members)) := by
      rw [← dumpsMembers_canon members, dumpsMembers_eq_map, sortItems_map_snd, dumpsMembers_eq_map]
    simp [canon, dumps, hmembers]
  | _ => rfl

theorem dumpsItems_canon (items : List (Json F)) :
    dumpsItems py false (canonItems items) = dumpsItems py true items := by
  cases items with
  | nil => rfl
  | cons v items => simp only [canonItems, dumpsItems, dumps_canon v, dumpsItems_canon items]

theorem dumpsMembers_canon (members : List (Text × Json F)) :
    dumpsMembers py false (canonMembers members) = dumpsMembers py true members := by
  cases members with
  | nil => rfl
  | cons p members =>
    simp only [canonMembers, dumpsMembers, dumps_canon p.2, dumpsMembers_canon members]

end

/-- Equal documents have the same sorted text. -/
theorem dumps_eq_of_canon_eq {v w : Json F} (h : canon v = canon w) :
    dumps py true v = dumps py true w := by
  rw [← dumps_canon, h, dumps_canon]

end Json

end GroundedOps.Python
