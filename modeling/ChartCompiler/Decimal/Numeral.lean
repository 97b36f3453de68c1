import ChartCompiler.Decimal.Shortest

/-!
# Numerals in text

`Numeral.scan` reads the longest decimal numeral at the start of a text,

    [sign] (digits [. [digits]] | . digits) [(e | E) [sign] digits],

where an `e` that no digits follow spoils the whole numeral. `Numeral.value` is the double nearest
to it. `parseFloat?` reads a text that is a numeral, or one of the names of infinity and NaN, from
end to end.
-/

namespace ChartCompiler

/-- The double nearest to a decimal, infinity if it is too large. Exponents that are out of reach of
a double are settled without computing the power. -/
def Decimal.toFloat (d : Decimal) : Float :=
  if d.digits = 0 then 0
  else if 400 < d.exponent then infinity
  else if d.exponent + d.digits.log2 / 3 < -400 then 0
  else if 0 ≤ d.exponent then Float.ofScientific d.digits false d.exponent.toNat
  else Float.ofScientific d.digits true (-d.exponent).toNat

def digitsValue (digits : List Char) : Nat :=
  digits.foldl (fun n c => 10 * n + (c.toNat - '0'.toNat)) 0

/-- The letter of lower case for an ASCII capital, and every other character itself. -/
def lowerAscii (text : List Char) : List Char :=
  text.map Char.toLower

structure Numeral where
  negative : Bool
  whole : List Char
  fraction : List Char
  exponent : Int
  deriving Repr, DecidableEq

namespace Numeral

def decimal (n : Numeral) : Decimal :=
  ⟨digitsValue (n.whole ++ n.fraction), n.exponent - n.fraction.length⟩

/-- The double nearest to the numeral. -/
def value (n : Numeral) : Float :=
  if n.negative then -n.decimal.toFloat else n.decimal.toFloat

def scanSign : List Char → Bool × List Char
  | '-' :: rest => (true, rest)
  | '+' :: rest => (false, rest)
  | rest => (false, rest)

/-- Digits before and after the point. One side may be empty; the point needs a digit before it or
after it. -/
def scanDigits? (s : List Char) : Option (List Char × List Char × List Char) :=
  let whole := s.takeWhile Char.isDigit
  match s.dropWhile Char.isDigit with
  | '.' :: rest =>
      let fraction := rest.takeWhile Char.isDigit
      if whole.isEmpty && fraction.isEmpty then none
      else some (whole, fraction, rest.dropWhile Char.isDigit)
  | rest => if whole.isEmpty then none else some (whole, [], rest)

/-- The power of ten after an `e`, zero if there is none. An `e` without digits has no reading. -/
def scanExponent? : List Char → Option (Int × List Char)
  | c :: rest =>
      if c = 'e' ∨ c = 'E' then
        let (negative, body) := scanSign rest
        let digits := body.takeWhile Char.isDigit
        let size : Int := digitsValue digits
        if digits.isEmpty then none
        else some (if negative then -size else size, body.dropWhile Char.isDigit)
      else some (0, c :: rest)
  | [] => some (0, [])

/-- What stands at the start of a text. -/
inductive Scan where
  /-- No numeral begins here. -/
  | absent
  /-- A numeral begins here but its exponent has no digits. -/
  | broken
  /-- A numeral, and the text after it. -/
  | found (numeral : Numeral) (rest : List Char)
  deriving Repr, DecidableEq

/-- The longest numeral at the start of a text. -/
def scan (s : List Char) : Scan :=
  let (negative, unsigned) := scanSign s
  match scanDigits? unsigned with
  | none => .absent
  | some (whole, fraction, afterDigits) =>
      match scanExponent? afterDigits with
      | none => .broken
      | some (exponent, rest) => .found ⟨negative, whole, fraction, exponent⟩ rest

end Numeral

/-- The double that a whole text writes: a numeral, or `inf`, `infinity` or `nan` in any case with
or without a sign. -/
def parseFloat? (s : List Char) : Option Float :=
  match Numeral.scan s with
  | .found numeral [] => some numeral.value
  | .found _ (_ :: _) => none
  | .broken => none
  | .absent =>
      let (negative, name) := Numeral.scanSign s
      let size : Option Float :=
        if lowerAscii name = "inf".toList ∨ lowerAscii name = "infinity".toList then some infinity
        else if lowerAscii name = "nan".toList then some (0.0 / 0.0)
        else none
      size.map fun x => if negative then -x else x

/-- The integer that a whole text writes, if it fits 64 bits with a sign: digits with at most one
sign in front. -/
def parseInt64? (s : List Char) : Option Int :=
  let (negative, digits) := Numeral.scanSign s
  if digits.isEmpty ∨ !digits.all Char.isDigit then none
  else
    let size : Int := digitsValue digits
    let value := if negative then -size else size
    if -(Nat.pow 2 63 : Int) ≤ value ∧ value < Nat.pow 2 63 then some value else none

end ChartCompiler
