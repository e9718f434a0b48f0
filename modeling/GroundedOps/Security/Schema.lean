import GroundedOps.Python.Json
import GroundedOps.Security.Whitelist

/-!
# The description of the whitelist

What the tools accept is described to their callers as a JSON object. A caller finds the lists
of a table by their keys.
-/

namespace GroundedOps.Security

open Python

variable {F : Type}

/-- `sorted(names)` -/
def sortedNames (names : List Text) : Json F := .arr ((names.insertionSort (· ≤ ·)).map .str)

def tableSchema (p : TablePolicy) : Json F :=
  .obj [("columns".toList, sortedNames p.columns),
    ("group_by_columns".toList, sortedNames p.groupBy),
    ("filter_columns".toList, sortedNames p.filterColumns),
    ("numeric_columns".toList, sortedNames p.numericColumns),
    ("time_column".toList, p.timeColumn.elim .null .str)]

/-- A description of the whitelisted surface, returned by `list_schema`. -/
def schema : Json F :=
  .obj [("tables".toList, .obj (allowed.map fun e => (e.1, tableSchema e.2))),
    ("aggregate_functions".toList, sortedNames allowedAgg),
    ("granularities".toList, sortedNames allowedGranularity)]

/-! ### Reading the description -/

/-- The member of an object. -/
def member (key : Text) : Json F → Option (Json F)
  | .obj members => Json.lookup key members
  | _ => none

/-- The value is a list with this name. -/
def Lists (names : Option (Json F)) (name : Text) : Prop :=
  ∃ items, names = some (.arr items) ∧ .str name ∈ items

/-- What the description says about a table. -/
def described (description : Json F) (table : Text) : Option (Json F) :=
  (member "tables".toList description).bind (member table)

theorem lists_sortedNames {names : List Text} {name : Text} :
    Lists (some (sortedNames names : Json F)) name ↔ name ∈ names := by
  constructor
  · rintro ⟨items, hitems, hname⟩
    cases hitems
    obtain ⟨n, hn, heq⟩ := List.mem_map.mp hname
    cases heq
    exact (List.mem_insertionSort _).mp hn
  · intro hname
    exact ⟨_, rfl, List.mem_map_of_mem ((List.mem_insertionSort _).mpr hname)⟩

theorem lookup_map_tableSchema (tables : List (Text × TablePolicy)) (table : Text) :
    Json.lookup table (tables.map fun e => (e.1, (tableSchema e.2 : Json F))) =
      (tables.lookup table).map tableSchema := by
  induction tables with
  | nil => rfl
  | cons e tables ih =>
    rw [Json.lookup] at ih
    rw [Json.lookup, List.map_cons, List.find?_cons, List.lookup_cons]
    by_cases htable : table = e.1
    · subst htable
      simp
    · have hfirst : (e.1 == table) = false := beq_eq_false_iff_ne.mpr (Ne.symm htable)
      have hkey : (table == e.1) = false := beq_eq_false_iff_ne.mpr htable
      simp only [hfirst, hkey]
      exact ih

/-- The description has an entry for exactly the tables with a policy. -/
theorem described_schema (table : Text) :
    described (schema : Json F) table = (policy table).toOption.map tableSchema := by
  have hlookup : described (schema : Json F) table = (allowed.lookup table).map tableSchema :=
    lookup_map_tableSchema allowed table
  rw [hlookup, policy]
  cases allowed.lookup table <;> rfl

theorem described_eq_some {table : Text} {entry : Json F} :
    described schema table = some entry ↔ ∃ p, policy table = .ok p ∧ entry = tableSchema p := by
  rw [described_schema]
  cases policy table with
  | error e => simp [Except.toOption]
  | ok p => simp [Except.toOption, eq_comm]

section Entry

variable (p : TablePolicy) (name : Text)

theorem lists_groupBy :
    Lists (member "group_by_columns".toList (tableSchema p : Json F)) name ↔ name ∈ p.groupBy :=
  lists_sortedNames

theorem lists_filterColumns :
    Lists (member "filter_columns".toList (tableSchema p : Json F)) name ↔
      name ∈ p.filterColumns :=
  lists_sortedNames

theorem lists_numericColumns :
    Lists (member "numeric_columns".toList (tableSchema p : Json F)) name ↔
      name ∈ p.numericColumns :=
  lists_sortedNames

theorem timeColumn_described :
    member "time_column".toList (tableSchema p : Json F) = some (.str name) ↔
      p.timeColumn = some name := by
  have hmember : member "time_column".toList (tableSchema p : Json F) =
      some (p.timeColumn.elim .null .str) := rfl
  rw [hmember]
  cases p.timeColumn with
  | none => simp
  | some col => simp

end Entry

end GroundedOps.Security
