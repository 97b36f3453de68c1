import ChartCompiler.Decimal.Numeral
import ChartCompiler.Json.Fault
import ChartCompiler.Text.Blank
import ChartCompiler.Text.Hex

/-!
# Reading JSON in one pass

A `Reader` takes a value off the front of a text. The pieces of the grammar come first, then
`value`, which reads any value, and `skip`, which passes over one that nobody wants and is laxer
about numbers and escapes.

At most 127 brackets may be open at once in what is read; each reader is told how many more it may
open. Loops over items are bounded by the text itself, since every item takes a character.
-/

namespace ChartCompiler.Json

/-- Reads a value at the start of a text, with a number of brackets that may still be opened, and
returns the text behind it. -/
abbrev Reader (α : Type) := Nat → List Char → Except Fault (α × List Char)

/-- How many brackets may be open at once. -/
def maxDepth : Nat := 127

def word : List Char → List Char → Except Fault (List Char)
  | [], s => .ok s
  | _ :: _, [] => .error .cutShort
  | w :: ws, c :: cs => if w = c then word ws cs else .error .malformed

/-! ### Strings -/

/-- Four hexadecimal digits. The text is cut short when fewer than four bytes are left. -/
def hexQuad : List Char → Except Fault (Nat × List Char)
  | a :: b :: c :: d :: rest =>
      match hexValue? a, hexValue? b, hexValue? c, hexValue? d with
      | some a, some b, some c, some d => .ok (((a * 16 + b) * 16 + c) * 16 + d, rest)
      | _, _, _, _ => .error .malformed
  | short => .error (if (String.ofList short).utf8ByteSize < 4 then .cutShort else .malformed)

/-- The character that a letter stands for after a backslash. -/
def escape? : Char → Option Char
  | '"' => some '"'
  | '\\' => some '\\'
  | '/' => some '/'
  | 'b' => some '\x08'
  | 'f' => some '\x0c'
  | 'n' => some '\n'
  | 'r' => some '\r'
  | 't' => some '\t'
  | _ => none

/-- The character of an escape by number, behind its `u`. Two halves of a surrogate pair make one
character, a half alone none. -/
def unicodeEscape (s : List Char) : Except Fault (Char × List Char) := do
  let (unit, rest) ← hexQuad s
  if unit < 0xD800 ∨ 0xDFFF < unit then return (Char.ofNat unit, rest)
  if 0xDC00 ≤ unit then throw .malformed
  let rest ← word ['\\', 'u'] rest
  let (low, rest) ← hexQuad rest
  if low < 0xDC00 ∨ 0xDFFF < low then throw .malformed
  return (Char.ofNat (0x10000 + (unit - 0xD800) * 0x400 + (low - 0xDC00)), rest)

/-- The rest of a string behind its opening quote. `before` holds what has been read of it, last
character first, and `bound` is a text at least as long as the one to read. -/
def stringBody (before : List Char) :
    (bound : List Char) → List Char → Except Fault (String × List Char)
  | _, [] => .error .cutShort
  | _, '"' :: rest => .ok (String.ofList before.reverse, rest)
  | [], _ => .error .cutShort
  | _ :: bound, '\\' :: rest =>
      match rest with
      | [] => .error .cutShort
      | 'u' :: rest =>
          match unicodeEscape rest with
          | .ok (c, rest) => stringBody (c :: before) bound rest
          | .error fault => .error fault
      | letter :: rest =>
          match escape? letter with
          | some c => stringBody (c :: before) bound rest
          | none => .error .malformed
  | _ :: bound, c :: rest =>
      if c.toNat < 0x20 then .error .malformed else stringBody (c :: before) bound rest

def stringRest (s : List Char) : Except Fault (String × List Char) :=
  stringBody [] s s

/-- Passes over the rest of a string. Escapes by number need four digits but no partner. -/
def skipString : (bound : List Char) → List Char → Except Fault (List Char)
  | _, [] => .error .cutShort
  | _, '"' :: rest => .ok rest
  | [], _ => .error .cutShort
  | _ :: bound, '\\' :: rest =>
      match rest with
      | [] => .error .cutShort
      | 'u' :: rest =>
          match hexQuad rest with
          | .ok (_, rest) => skipString bound rest
          | .error fault => .error fault
      | letter :: rest =>
          if (escape? letter).isSome then skipString bound rest else .error .malformed
  | _ :: bound, c :: rest => if c.toNat < 0x20 then .error .malformed else skipString bound rest

/-! ### Numbers -/

/-- The fraction of a number: none, or a point and at least one digit. `atEnd` is the fault of a
text that ends where a digit has to stand. -/
def numberFraction (atEnd : Fault) : List Char → Except Fault (List Char × List Char)
  | '.' :: rest =>
      let digits := rest.takeWhile Char.isDigit
      if digits.isEmpty then .error (if rest.isEmpty then atEnd else .malformed)
      else .ok (digits, rest.dropWhile Char.isDigit)
  | s => .ok ([], s)

/-- The exponent of a number: none, or an `e`, a sign that may be left out and at least one
digit. -/
def numberExponent (atEnd : Fault) : List Char → Except Fault (Option Int × List Char)
  | c :: rest =>
      if c = 'e' ∨ c = 'E' then
        let (negative, body) := Numeral.scanSign rest
        let digits := body.takeWhile Char.isDigit
        let size : Int := digitsValue digits
        if digits.isEmpty then .error (if body.isEmpty then atEnd else .malformed)
        else .ok (some (if negative then -size else size), body.dropWhile Char.isDigit)
      else .ok (none, c :: rest)
  | [] => .ok (none, [])

/-- A number taken apart. Without point and exponent it is an integer. -/
structure NumberParts where
  negative : Bool
  whole : List Char
  fraction : List Char
  exponent : Option Int

/-- The parts of a number whose sign has been read. A zero in front of another digit is refused. -/
def numberParts (atEnd : Fault) (negative : Bool) (s : List Char) :
    Except Fault (NumberParts × List Char) := do
  let whole := s.takeWhile Char.isDigit
  if s.isEmpty then throw atEnd
  if whole.isEmpty then throw .malformed
  if whole.head? = some '0' ∧ whole.length ≠ 1 then throw .malformed
  let (fraction, rest) ← numberFraction atEnd (s.dropWhile Char.isDigit)
  let (exponent, rest) ← numberExponent atEnd rest
  return (⟨negative, whole, fraction, exponent⟩, rest)

/-- Extends `n` by digits as long as the result fits 64 bits, and counts the digits taken. -/
def takeFitting (n : Nat) : List Char → Nat × Nat
  | [] => (n, 0)
  | c :: rest =>
      let longer := 10 * n + (c.toNat - '0'.toNat)
      if longer < Nat.pow 2 64 then
        let (value, count) := takeFitting longer rest
        (value, count + 1)
      else (n, 0)

/-- A power of ten up to `10 ^ 308`. -/
def powerOfTen (n : Nat) : Float :=
  Float.ofScientific 1 false n

/-- The number `significand · 10 ^ exponent`, rounded after every step: one multiplication or
division by a power of ten, or two divisions if one power does not reach. `none` is a number too
large. -/
def scaled? (significand : Nat) (exponent : Int) : Option Float :=
  let x := Float.ofNat significand
  if 308 < exponent then
    if significand = 0 then some x else none
  else if 0 ≤ exponent then
    let y := x * powerOfTen exponent.toNat
    if y.isInf then none else some y
  else if -308 ≤ exponent then
    some (x / powerOfTen (-exponent).toNat)
  else if -616 ≤ exponent then
    some (x / powerOfTen 308 / powerOfTen (-(exponent + 308)).toNat)
  else some 0

/-- The number that the parts write. An integer that fits 64 bits stays one, except for `-0`. For
all others the digits that fit 64 bits are scaled by their power of ten. -/
def NumberParts.number? (parts : NumberParts) : Option Number :=
  let (head, taken) := takeFitting 0 parts.whole
  let dropped := parts.whole.length - taken
  let signed (x : Float) : Float := if parts.negative then -x else x
  if parts.fraction.isEmpty ∧ parts.exponent.isNone ∧ dropped = 0 then
    if !parts.negative then some (.integer head)
    else if 0 < head ∧ head ≤ Nat.pow 2 63 then some (.integer (-head))
    else some (.real (-Float.ofNat head))
  else
    let (significand, places) := takeFitting head parts.fraction
    let exponent := (dropped : Int) - places + parts.exponent.getD 0
    (scaled? significand exponent).map fun x => .real (signed x)

/-- A number whose sign has been read. -/
def unsignedNumber (negative : Bool) (s : List Char) : Except Fault (Number × List Char) := do
  let (parts, rest) ← numberParts .cutShort negative s
  match parts.number? with
  | some n => return (n, rest)
  | none => throw .malformed

/-! ### Lists and objects -/

/-- The start of the next item of a list, or `none` at the closing bracket. Items after the first
follow a comma. -/
def nextItem (first : Bool) (s : List Char) : Except Fault (Option (List Char)) :=
  match skipBlanks s with
  | [] => .error .cutShort
  | ']' :: _ => .ok none
  | c :: rest =>
      if first then .ok (some (c :: rest))
      else if c = ',' then
        match skipBlanks rest with
        | [] => .error .cutShort
        | ']' :: _ => .error .malformed
        | item => .ok (some item)
      else .error .malformed

def closeList (s : List Char) : Except Fault (List Char) :=
  match skipBlanks s with
  | [] => .error .cutShort
  | ']' :: rest => .ok rest
  | _ => .error .malformed

/-- The text behind the quote that opens the next member's name, or `none` at the closing brace. -/
def nextName (first : Bool) (s : List Char) : Except Fault (Option (List Char)) :=
  match skipBlanks s with
  | [] => .error .cutShort
  | '\x7d' :: _ => .ok none
  | c :: rest =>
      if first then if c = '"' then .ok (some rest) else .error .malformed
      else if c = ',' then
        match skipBlanks rest with
        | [] => .error .cutShort
        | '"' :: name => .ok (some name)
        | _ => .error .malformed
      else .error .malformed

def colon (s : List Char) : Except Fault (List Char) :=
  match skipBlanks s with
  | [] => .error .cutShort
  | ':' :: rest => .ok rest
  | _ => .error .malformed

def closeObject (s : List Char) : Except Fault (List Char) :=
  match skipBlanks s with
  | [] => .error .cutShort
  | '\x7d' :: rest => .ok rest
  | _ => .error .malformed

/-- Runs `step` on every item of a list up to its closing bracket, which is left standing. -/
def eachItem {σ : Type} (step : σ → List Char → Except Fault (σ × List Char)) (first : Bool) :
    (bound : List Char) → σ → List Char → Except Fault (σ × List Char)
  | bound, state, s =>
      match nextItem first s with
      | .error fault => .error fault
      | .ok none => .ok (state, s)
      | .ok (some item) =>
          match bound with
          | [] => .error .cutShort
          | _ :: bound =>
              match step state item with
              | .error fault => .error fault
              | .ok (state, rest) => eachItem step false bound state rest

/-- Runs `step` on every member of an object up to its closing brace, which is left standing. The
step gets the text behind the quote that opens the name. -/
def eachMember {σ : Type} (step : σ → List Char → Except Fault (σ × List Char)) (first : Bool) :
    (bound : List Char) → σ → List Char → Except Fault (σ × List Char)
  | bound, state, s =>
      match nextName first s with
      | .error fault => .error fault
      | .ok none => .ok (state, s)
      | .ok (some name) =>
          match bound with
          | [] => .error .cutShort
          | _ :: bound =>
              match step state name with
              | .error fault => .error fault
              | .ok (state, rest) => eachMember step false bound state rest

/-- Reads the items of a list whose bracket is open, and the closing bracket. -/
def listRest {α : Type} (item : List Char → Except Fault (α × List Char)) (s : List Char) :
    Except Fault (List α × List Char) := do
  let step := fun (before : List α) (s : List Char) => do
    let (x, rest) ← item s
    return (x :: before, rest)
  let (items, rest) ← eachItem step true s [] s
  let rest ← closeList rest
  return (items.reverse, rest)

/-- Reads the members of an object whose brace is open, and the closing brace. Of members with one
name the last is kept. -/
def objectRest (item : List Char → Except Fault (Json × List Char)) (s : List Char) :
    Except Fault (Members × List Char) := do
  let step := fun (members : Members) (s : List Char) => do
    let (name, rest) ← stringRest s
    let rest ← colon rest
    let (value, rest) ← item rest
    return (members.insert name value, rest)
  let (members, rest) ← eachMember step true s [] s
  let rest ← closeObject rest
  return (members, rest)

/-! ### Whole values -/

/-- Reads one value. `nested` reads the values inside a list or object; without it none may be
opened. -/
def valueWith (nested : Option (List Char → Except Fault (Json × List Char))) (s : List Char) :
    Except Fault (Json × List Char) :=
  match skipBlanks s with
  | [] => .error .cutShort
  | 'n' :: rest => do return (.null, ← word "ull".toList rest)
  | 't' :: rest => do return (.bool true, ← word "rue".toList rest)
  | 'f' :: rest => do return (.bool false, ← word "alse".toList rest)
  | '"' :: rest => do
      let (text, rest) ← stringRest rest
      return (.string text, rest)
  | '-' :: rest => do
      let (n, rest) ← unsignedNumber true rest
      return (.number n, rest)
  | '[' :: rest =>
      match nested with
      | none => .error .malformed
      | some item => do
          let (items, rest) ← listRest item rest
          return (.array items, rest)
  | '\x7b' :: rest =>
      match nested with
      | none => .error .malformed
      | some item => do
          let (members, rest) ← objectRest item rest
          return (.object members, rest)
  | c :: rest =>
      if c.isDigit then do
        let (n, rest) ← unsignedNumber false (c :: rest)
        return (.number n, rest)
      else .error .malformed

/-- Reads any value, with its objects' members sorted by name. -/
def value : Reader Json
  | 0 => valueWith none
  | depth + 1 => valueWith (some (value depth))

/-- Passes over one value; `nested` passes over the values inside it. -/
def skipWith (nested : List Char → Except Fault (Unit × List Char)) (s : List Char) :
    Except Fault (Unit × List Char) :=
  match skipBlanks s with
  | [] => .error .cutShort
  | 'n' :: rest => do return ((), ← word "ull".toList rest)
  | 't' :: rest => do return ((), ← word "rue".toList rest)
  | 'f' :: rest => do return ((), ← word "alse".toList rest)
  | '"' :: rest => do return ((), ← skipString rest rest)
  | '-' :: rest => do
      let (_, rest) ← numberParts .malformed true rest
      return ((), rest)
  | '[' :: rest => do
      let (_, rest) ← eachItem (fun _ s => nested s) true rest () rest
      return ((), ← closeList rest)
  | '\x7b' :: rest => do
      let step := fun (_ : Unit) (s : List Char) => do
        let rest ← skipString s s
        nested (← colon rest)
      let (_, rest) ← eachMember step true rest () rest
      return ((), ← closeObject rest)
  | c :: rest =>
      if c.isDigit then do
        let (_, rest) ← numberParts .malformed false (c :: rest)
        return ((), rest)
      else .error .malformed

/-- Passes over a value with at most `depth` brackets open at once. -/
def skipWithin : Nat → List Char → Except Fault (Unit × List Char)
  | 0 => skipWith fun _ => .error .malformed
  | depth + 1 => skipWith (skipWithin depth)

/-- Passes over a value of any depth. Every bracket takes a character of the text. -/
def skip (s : List Char) : Except Fault (Unit × List Char) :=
  skipWithin s.length s

/-- Reads a whole text: one value with nothing but blanks after it. -/
def Reader.readText {α : Type} (reader : Reader α) (text : List Char) : Except Fault α := do
  let (result, rest) ← reader maxDepth text
  if (skipBlanks rest).isEmpty then return result else throw .malformed

end ChartCompiler.Json
