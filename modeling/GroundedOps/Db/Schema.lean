import GroundedOps.Db.Models
import GroundedOps.Library.Relational

/-!
# The constraints of the tables

What the database checks of a row of each structured table. The other tables are not
constrained here.
-/

namespace GroundedOps.Db

open Python Relational

inductive Value (F : Type)
  | text (s : Text)
  | int (n : ℤ)
  | float (x : F)
  | time (t : ℕ)
  deriving DecidableEq, Repr

namespace Value

variable {F : Type}

/-- A value of a column of this type; integers have 32 bits. A text with U+0000, which the
database refuses whatever the column, is excluded where it matters, by `Seed.NulFree`. -/
def hasType : Value F → ColumnType → Bool
  | .text _, .string => true
  | .int n, .integer => decide (-2147483648 ≤ n ∧ n ≤ 2147483647)
  | .float _, .float => true
  | .time _, .timestamp => true
  | _, _ => false

/-- `column in (…)` -/
def isOneOf : Value F → List Text → Bool
  | .text s, texts => texts.contains s
  | _, _ => false

end Value

variable {F : Type}

/-- The columns of an insert; the others are null. -/
def row (values : List (Text × Option (Value F))) : Row Text (Value F) :=
  fun c => (values.lookup c).join

def Table.fits (table : Table) (r : Row Text (Value F)) : Bool :=
  table.columns.all (fun c => (r c.name).elim c.nullable fun v => v.hasType c.type) &&
    table.checks.all fun check => (r check.1).all fun v => v.isOneOf check.2

/-- An autoincremented id, unless the row has one. -/
def numberedId (n : ℕ) (r : Row Text (Value F)) : Row Text (Value F) :=
  Function.update r "id".toList (some ((r "id".toList).getD (.int n)))

/-- An integer primary key is filled from the sequence of its table. -/
def Table.autoincrement (table : Table) : Bool :=
  table.columns.any fun c => c.name = "id".toList ∧ c.type = .integer

def Table.relation (table : Table) : Relation Text Text (Value F) where
  fits := table.fits
  keys := table.keys
  references := table.foreignKeys.map fun ref => ⟨ref.1, ref.2, "id".toList⟩
  serial := if table.autoincrement then some numberedId else none

/-- A table without constraints. -/
def unconstrained : Relation Text Text (Value F) := ⟨fun _ => true, [], [], none⟩

def schema (t : Text) : Relation Text Text (Value F) :=
  (models.lookup t).elim unconstrained Table.relation

end GroundedOps.Db
