import ChartCompiler.Decimal.Dyadic

/-!
# The shortest decimal that reads back

A double stands for every real that rounds to it. Among the decimals in that interval the shortest
are those on the coarsest grid of powers of ten that has a point there, and of these the one next
to the double is chosen. Where two are equally near, the format has a rule for the tie. All
comparisons are between natural numbers.
-/

namespace ChartCompiler

/-- Which of two equally near numbers is taken, leaving signs aside: the even one or the greater
one. -/
inductive Tie where
  | toEven
  | up
  deriving Repr, DecidableEq

/-- The choice between `below` and the next number, from which something is equally far. -/
def Tie.choose (tie : Tie) (below : Nat) : Nat :=
  match tie with
  | toEven => below + below % 2
  | up => below + 1

/-- One of the two is taken. -/
theorem Tie.choose_eq (tie : Tie) (below : Nat) :
    tie.choose below = below ∨ tie.choose below = below + 1 := by
  cases tie with
  | toEven => simp only [choose]; omega
  | up => exact .inr rfl

theorem Tie.choose_toEven_mod_two (below : Nat) : toEven.choose below % 2 = 0 := by
  simp only [choose]; omega

/-- The number `digits · 10 ^ exponent`. -/
structure Decimal where
  digits : Nat
  exponent : Int
  deriving Repr, DecidableEq

namespace Decimal

/-- Lower end of the reals that round to `significand · 2 ^ exponent`, in quarters of
`2 ^ exponent`. Below a power of two the doubles are twice as dense. -/
def lowerQuarters (significand : Nat) (exponent : Int) : Nat :=
  if significand = Nat.pow 2 52 ∧ -1074 < exponent then 4 * significand - 1 else 4 * significand - 2

/-- Upper end of the reals that round to `significand · 2 ^ exponent`, in quarters. -/
def upperQuarters (significand : Nat) : Nat :=
  4 * significand + 2

/-- The integer `d` for which `d · 10 ^ grid` rounds to the double, if one of the two neighbours of
the double on that grid does. Of two the nearer is taken. -/
def gridPoint? (tie : Tie) (significand : Nat) (exponent grid : Int) : Option Nat :=
  let point := Nat.pow 10 grid.toNat * Nat.pow 2 (2 - exponent).toNat
  let quarter := Nat.pow 10 (-grid).toNat * Nat.pow 2 (exponent - 2).toNat
  let low := lowerQuarters significand exponent * quarter
  let high := upperQuarters significand * quarter
  let value := 4 * significand * quarter
  let inside (d : Nat) : Bool :=
    if significand % 2 = 0 then low ≤ d * point ∧ d * point ≤ high
    else low < d * point ∧ d * point < high
  let below := value / point
  let above := below + 1
  match inside below, inside above with
  | false, false => none
  | true, false => some below
  | false, true => some above
  | true, true =>
      let down := value - below * point
      let up := above * point - value
      if down < up then some below
      else if up < down then some above
      else some (tie.choose below)

/-- Tries ever finer grids. -/
def onGrids (tie : Tie) (significand : Nat) (exponent : Int) : Nat → Int → Decimal
  | 0, grid => ⟨4 * significand * Nat.pow 2 (exponent - 2).toNat, grid⟩
  | more + 1, grid =>
      match gridPoint? tie significand exponent grid with
      | some digits => ⟨digits, grid⟩
      | none => onGrids tie significand exponent more (grid - 1)

/-- The shortest decimal that rounds to `significand · 2 ^ exponent`. The search starts at a power
of ten above the number; seventeen digits always suffice. -/
def shortest (tie : Tie) (significand : Nat) (exponent : Int) : Decimal :=
  if significand = 0 then ⟨0, 0⟩
  else
    let binaryLength : Int := significand.log2 + exponent + 1
    onGrids tie significand exponent 21 (binaryLength * 1233 / 4096 + 2)

end Decimal

end ChartCompiler
