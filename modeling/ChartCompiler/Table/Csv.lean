import ChartCompiler.Table.Basic

/-!
# Tables from comma-separated values

The first record names the fields. A field is quoted if a quote is its first character; inside, two
quotes stand for one and line ends are text. Behind the closing quote the field goes on as an
unquoted one. Carriage return and line feed both end a record, and empty lines are passed over.
Every record has as many fields as the first.
-/

namespace ChartCompiler

namespace Csv

/-- Where in a record the next byte stands. -/
inductive Place where
  | recordStart
  | fieldStart
  | plain
  | inQuotes
  /-- Behind a quote that closes the field unless a second one follows. -/
  | afterQuote
  deriving Repr, DecidableEq

def isLineEnd (b : UInt8) : Bool :=
  b = 10 || b = 13

def comma : UInt8 := 44

def quote : UInt8 := 34

abbrev RawRecord := List (List UInt8)

/-- The records of a text. `field` holds the bytes of the open field and `fields` the finished
fields of the open record, both last one first. -/
def scan : Place → (field : List UInt8) → (fields : RawRecord) → List UInt8 → List RawRecord
  | .recordStart, _, _, [] => []
  | _, field, fields, [] => [(field.reverse :: fields).reverse]
  | .inQuotes, field, fields, b :: rest =>
      if b = quote then scan .afterQuote field fields rest
      else scan .inQuotes (b :: field) fields rest
  | place, field, fields, b :: rest =>
      if isLineEnd b then
        if place = .recordStart then scan .recordStart [] [] rest
        else (field.reverse :: fields).reverse :: scan .recordStart [] [] rest
      else if b = comma then scan .fieldStart [] (field.reverse :: fields) rest
      else if b = quote ∧ (place = .recordStart ∨ place = .fieldStart) then
        scan .inQuotes field fields rest
      else if b = quote ∧ place = .afterQuote then scan .inQuotes (b :: field) fields rest
      else scan .plain (b :: field) fields rest

/-- The bytes without the mark of their encoding in front. -/
def withoutMark : List UInt8 → List UInt8
  | 0xEF :: 0xBB :: 0xBF :: rest => rest
  | bytes => bytes

def records (bytes : List UInt8) : List RawRecord :=
  scan .recordStart [] [] (withoutMark bytes)

/-- A field as text, without white space at its ends. -/
def fieldText? (bytes : List UInt8) : Option String :=
  (String.fromUTF8? ⟨bytes.toArray⟩).map fun s => String.ofList (trim s.toList)

/-- The cell that a field stands for: null if it is empty, a number if it writes one, else a
string. -/
def cell (text : String) : Json :=
  let chars := text.toList
  if chars.isEmpty then .null
  else
    match parseInt64? chars with
    | some n => .number (.integer n)
    | none =>
        match (parseFloat? chars).filter Float.isFinite with
        | some x => .number (.real x)
        | none => .string text

/-- The row of a record under the given headers. Of fields with one name the last is kept. -/
def row (headers cells : List String) : Row :=
  (headers.zip cells).foldl (fun row (header, text) => row.insert header (cell text)) []

def rowsFrom (headers : List String) (number : Nat) : List RawRecord → Except Table.Error Table
  | [] => .ok []
  | record :: rest =>
      if record.length ≠ headers.length then .error (.csvRecord number)
      else
        match record.mapM fieldText? with
        | none => .error (.csvRecord number)
        | some cells => do return row headers cells :: (← rowsFrom headers (number + 1) rest)

end Csv

/-- The table that a file of comma-separated values holds. -/
def Table.ofCsv? (bytes : List UInt8) : Except Table.Error Table :=
  match Csv.records bytes with
  | [] => .ok []
  | first :: rest =>
      match first.mapM Csv.fieldText? with
      | none => .error .csvHeaders
      | some headers => Csv.rowsFrom headers 1 rest

end ChartCompiler
