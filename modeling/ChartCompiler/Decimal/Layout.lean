import ChartCompiler.Decimal.Shortest

/-!
# Decimal text of doubles

`Layout` collects the decisions of a number format. `Layout.write` prints the shortest decimal of a
double under them, `fixed` prints a set number of decimal places.
-/

namespace ChartCompiler.Decimal

/-- How a format writes doubles. -/
structure Layout where
  /-- Which of two equally near shortest decimals is written. -/
  tie : Tie
  /-- Least and greatest power of ten of a leading digit that are written without an exponent.
  `none` writes every number so. -/
  plain : Option (Int × Int)
  /-- A whole number ends in `.0`. -/
  pointZero : Bool
  /-- The texts of NaN, of infinity and of negative infinity. -/
  nan : String
  infinite : String
  negativeInfinite : String

def zeros (n : Nat) : List Char :=
  List.replicate n '0'

/-- Digits with a point and as many zeros as the exponent asks for. -/
def positional (pointZero : Bool) (digits : List Char) (exponent : Int) : List Char :=
  let whole : Int := digits.length + exponent
  if 0 ≤ exponent then
    digits ++ zeros exponent.toNat ++ (if pointZero then ['.', '0'] else [])
  else if 0 < whole then
    digits.take whole.toNat ++ '.' :: digits.drop whole.toNat
  else
    '0' :: '.' :: zeros (-whole).toNat ++ digits

/-- One digit before the point, then the power of ten with its sign. -/
def scientific (digits : List Char) (exponent : Int) : List Char :=
  let power : Int := digits.length + exponent - 1
  let mantissa := match digits with
    | first :: second :: rest => first :: '.' :: second :: rest
    | short => short
  let sign := if power < 0 then '-' else '+'
  mantissa ++ 'e' :: sign :: (Nat.repr power.natAbs).toList

def Layout.magnitude (layout : Layout) (d : Decimal) : List Char :=
  let digits := (Nat.repr d.digits).toList
  let power : Int := digits.length + d.exponent - 1
  let plain := match layout.plain with
    | none => true
    | some (least, greatest) => least ≤ power ∧ power ≤ greatest
  if plain then positional layout.pointZero digits d.exponent
  else scientific digits d.exponent

/-- The shortest text of a double in this layout. -/
def Layout.write (layout : Layout) (x : Float) : String :=
  match Dyadic.ofFloat? x with
  | some d =>
      let magnitude := layout.magnitude (shortest layout.tie d.significand d.exponent)
      String.ofList (if d.negative then '-' :: magnitude else magnitude)
  | none =>
      if x.isNaN then layout.nan
      else if x < 0 then layout.negativeInfinite
      else layout.infinite

/-- The natural number nearest to `num / den`, the even one of two. -/
def roundHalfEven (num den : Nat) : Nat :=
  let below := num / den
  let rest := 2 * (num % den)
  if rest < den then below
  else if den < rest then below + 1
  else Tie.toEven.choose below

/-- The digits of `n`, of which the last `places` stand after a point. -/
def placed (n places : Nat) : List Char :=
  let digits := (Nat.repr n).toList
  let padded := zeros (places + 1 - digits.length) ++ digits
  let whole := padded.length - places
  if places = 0 then padded
  else padded.take whole ++ '.' :: padded.drop whole

/-- A double with `places` decimal places. The exact value is rounded, a half to the even digit, and
the sign stays when all digits are zero. -/
def fixed (places : Nat) (x : Float) : String :=
  match Dyadic.ofFloat? x with
  | some d =>
      let num := d.significand * Nat.pow 2 d.exponent.toNat * Nat.pow 10 places
      let digits := placed (roundHalfEven num (Nat.pow 2 (-d.exponent).toNat)) places
      String.ofList (if d.negative then '-' :: digits else digits)
  | none => if x.isNaN then "NaN" else if x < 0 then "-inf" else "inf"

/-- Decimal places without their trailing zeros, and without the point if none is left. -/
def trimPlaces (text : String) : String :=
  let chars := text.toList
  if '.' ∈ chars then
    let kept := chars.reverse.dropWhile (· = '0')
    String.ofList (match kept with
      | '.' :: whole => whole.reverse
      | _ => kept.reverse)
  else text

end ChartCompiler.Decimal
