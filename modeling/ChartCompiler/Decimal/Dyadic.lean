/-!
# Doubles as scaled integers

A finite double is an integer multiple of a power of two. `Dyadic.ofFloat?` reads the three parts
off the bits, so that printing and rounding can be done in exact integer arithmetic.
-/

namespace ChartCompiler

/-- The number `± significand · 2 ^ exponent`. -/
structure Dyadic where
  negative : Bool
  significand : Nat
  exponent : Int
  deriving Repr, DecidableEq

namespace Dyadic

/-- The parts of a double. Infinities and NaN, whose exponent field is full, have none. -/
def ofFloat? (x : Float) : Option Dyadic :=
  let bits : Nat := x.toBits.toNat
  let negative : Bool := Nat.pow 2 63 ≤ bits
  let field : Nat := bits / Nat.pow 2 52 % Nat.pow 2 11
  let fraction : Nat := bits % Nat.pow 2 52
  if field = 2047 then none
  else if field = 0 then some ⟨negative, fraction, -1074⟩
  else some ⟨negative, Nat.pow 2 52 + fraction, (field : Int) - 1075⟩

/-- Position of a double in the total order of doubles: negative numbers by falling magnitude, then
`-0.0`, then `0.0` and the positive numbers. -/
def rank (x : Float) : Int :=
  let bits : Nat := x.toBits.toNat
  if Nat.pow 2 63 ≤ bits then Nat.pow 2 63 - 1 - (bits : Int) else bits

end Dyadic

def infinity : Float := 1.0 / 0.0

/-- The integer part of a number that is not negative, the largest 64-bit number if it is larger
than all of them, and zero for every other number. -/
def floorNat (x : Float) : Nat :=
  x.toUInt64.toNat

/-- The least natural number that is at least `x`, for numbers below `2 ^ 64`. -/
def ceilNat (x : Float) : Nat :=
  let whole := floorNat x
  if Float.ofNat whole < x then whole + 1 else whole

/-- The smaller of two numbers, the first of equal ones. A NaN gives way to the other number. -/
def lesser (a b : Float) : Float :=
  if a.isNaN then b else if b < a then b else a

/-- The larger of two numbers, the first of equal ones. A NaN gives way to the other number. -/
def greater (a b : Float) : Float :=
  if a.isNaN then b else if a < b then b else a

/-- The number `x` moved into `[low, high]`; a NaN stays. -/
def clamp (low high x : Float) : Float :=
  let raised := if x < low then low else x
  if high < raised then high else raised

end ChartCompiler
