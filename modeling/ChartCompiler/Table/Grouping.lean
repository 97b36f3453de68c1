import ChartCompiler.Table.Basic

/-!
# Grouping rows

Groups stand in the order in which their keys are first seen, and keep the order of the rows. A
`Groups` value is filled in one pass with `Groups.add`.
-/

namespace ChartCompiler

abbrev Groups (α : Type) := List (String × List α)

namespace Groups

variable {α : Type}

/-- Adds values at the end of a key's group, and a new group at the end if the key has none. -/
def add (key : String) (values : List α) : Groups α → Groups α
  | [] => [(key, values)]
  | (other, old) :: rest =>
      if other = key then (other, old ++ values) :: rest
      else (other, old) :: add key values rest

def keys (groups : Groups α) : List String :=
  groups.map Prod.fst

/-- A key keeps its place, and a new one comes last. -/
theorem keys_add (key : String) (values : List α) (groups : Groups α) :
    (groups.add key values).keys =
      if key ∈ groups.keys then groups.keys else groups.keys ++ [key] := by
  induction groups with
  | nil => simp [add, keys]
  | cons head rest ih => grind [add, keys]

end Groups

namespace Table

/-- The numbers of field `y` by label of field `x`. A label has a group even if none of its rows
holds a number; rows without a label are passed over. -/
def groupValues (rows : Table) (x y : String) : Groups Float :=
  rows.foldl (fun groups row =>
    match row.label? x with
    | none => groups
    | some label => groups.add label (row.number? y).toList) []

/-- The labels of a field, each once, in the order in which they are first seen. -/
def distinctLabels (rows : Table) (field : String) : List String :=
  rows.foldl (fun seen row =>
    match row.label? field with
    | none => seen
    | some label => if label ∈ seen then seen else seen ++ [label]) []

def withLabel (rows : Table) (field label : String) : Table :=
  rows.filter fun row => row.label? field = some label

/-- The key of rows that have no label in the field that splits a table. -/
def emptyKey : String := "(empty)"

def partition (rows : Table) (field : String) : Groups Row :=
  rows.foldl (fun groups row => groups.add ((row.label? field).getD emptyKey) [row]) []

/-- The pairs of numbers of the rows in which both fields hold one. -/
def numberPairs (rows : Table) (x y : String) : List (Float × Float) :=
  rows.filterMap fun row =>
    match row.number? x, row.number? y with
    | some a, some b => some (a, b)
    | _, _ => none

end Table

end ChartCompiler
