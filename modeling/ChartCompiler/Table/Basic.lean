import ChartCompiler.Decimal.Numeral
import ChartCompiler.Json.Reader
import ChartCompiler.Json.Writer

/-!
# Tables

A table is a list of rows, and a row gives each field a cell. A cell is read in two ways: as a
category label and as a number. Either reading may be missing.
-/

namespace ChartCompiler

/-- The cells of one record by field. -/
abbrev Row := Json.Members

abbrev Table := List Row

namespace Row

/-- The category label of a cell. A null or missing cell has none; a list or an object is labelled
with its text. -/
def label? (row : Row) (field : String) : Option String :=
  match row.get? field with
  | none => none
  | some .null => none
  | some (.bool b) => some (toString b)
  | some (.number n) => some n.text
  | some (.string s) => some s
  | some other => some (String.ofList other.compact)

/-- The number in a cell, which may be written as a string. -/
def number? (row : Row) (field : String) : Option Float :=
  let read : Option Float :=
    match row.get? field with
    | some (.number n) => some n.toFloat
    | some (.string s) => parseFloat? (trim s.toList)
    | _ => none
  read.filter Float.isFinite

end Row

namespace Table

inductive Error where
  | notArray
  | notObject (index : Nat)
  | csvHeaders
  | csvRecord (number : Nat)
  deriving Repr, DecidableEq

def Error.message : Error → String
  | notArray => "Input data must be a JSON array of objects"
  | notObject index => "Item " ++ toString index ++ " in data array is not an object"
  | csvHeaders => "Failed to read CSV headers"
  | csvRecord number => "Failed to read CSV record " ++ toString number

def rowsFrom (index : Nat) : List Json → Except Error Table
  | [] => .ok []
  | .object members :: rest => do return members :: (← rowsFrom (index + 1) rest)
  | _ :: _ => .error (.notObject index)

def ofJson? : Json → Except Error Table
  | .array items => rowsFrom 0 items
  | _ => .error .notArray

end Table

end ChartCompiler
