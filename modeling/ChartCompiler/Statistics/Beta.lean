/-!
# The incomplete beta function

`betaRegularized a b` is the distribution function of the beta distribution, by its continued
fraction; `betaQuantile` inverts it with Newton steps from a closed-form guess. The fraction is cut
off behind a fixed number of terms. The steps are repeated until the point stands still, and nothing
bounds their number: no value is settled for a quantile that they never come to.
-/

namespace ChartCompiler.Statistics

/-- Repeats a round until it has a result. A run whose rounds never end has none, and what stands
for it here is left open. -/
def repeatUntil {α β : Type} [Nonempty β] (round : α → α ⊕ β) (start : α) : β :=
  Id.run (repeatM (fun state => pure (round state)) start)

theorem repeatUntil_eq {α β : Type} [Nonempty β] (round : α → α ⊕ β) (start : α) :
    repeatUntil round start =
      match round start with
      | .inl next => repeatUntil round next
      | .inr result => result := by
  unfold repeatUntil
  rw [repeatM_eq_of_monadTail]
  unfold repeatM.body
  rw [pure_bind]
  cases round start with
  | inl next => rfl
  | inr result => rfl

def gammaCoefficients : List Float :=
  [1.05142378581721974210, -3.45687097222016235469, 4.51227709466894823700,
    -2.98285225323576655721, 1.05639711577126713077, -1.95428773191645869583e-1,
    1.70970543404441224307e-2, -5.71926117404305781283e-4, 4.63399473359905636708e-6,
    -2.71994908488607703910e-9]

/-- The first coefficient, to which the fractions with the others are added. -/
def gammaOffset : Float :=
  2.48574089138753565546e-5

/-- The logarithm of the gamma function. Arguments below one half are reflected. -/
def logGamma (x : Float) : Float :=
  let e := 2.718281828459045235360287471352662497757
  let logTwoSqrtEOverPi := 0.6207822376352452223455184457816472122518527279025978
  let shift := 10.900511
  if x < 0.5 then
    let pi := 3.14159265358979323846264338327950288
    let logPi := 1.1447298858494001741434273513530587116472948129153
    let series := gammaCoefficients.zipIdx.foldl
      (fun s (c, i) => s + c / (Float.ofNat (i + 1) - x)) gammaOffset
    logPi - Float.log (Float.sin (pi * x)) - Float.log series - logTwoSqrtEOverPi -
      (0.5 - x) * Float.log ((0.5 - x + shift) / e)
  else
    let series := gammaCoefficients.zipIdx.foldl
      (fun s (c, i) => s + c / (x + Float.ofNat (i + 1) - 1)) gammaOffset
    Float.log series + logTwoSqrtEOverPi +
      (x - 0.5) * Float.log ((x - 0.5 + shift) / e)

def logBeta (a b : Float) : Float :=
  logGamma a + logGamma b - logGamma (a + b)

/-- Half the distance from one to the next double. -/
def halfUlp : Float :=
  1.1102230246251565e-16

/-- The least magnitude that the continued fraction divides by. -/
def leastDivisor : Float :=
  2.2250738585072014e-308 / halfUlp

/-- The number `x`, or the least divisor where `x` is too close to zero to divide by. -/
def awayFromZero (x : Float) : Float :=
  if Float.abs x < leastDivisor then leastDivisor else x

/-- The value of the continued fraction from its `m`-th pair of terms on, in the scheme that keeps
the ratios `c` and `d` of successive numerators and denominators beside the value `h`. -/
def betaFraction (a b x : Float) : (more : Nat) → (m : Nat) → (c d h : Float) → Float
  | 0, _, _, _, h => h
  | more + 1, m, c, d, h =>
      let k := Float.ofNat m
      let even := k * (b - k) * x / ((a - 1 + k * 2) * (a + k * 2))
      let d := 1 / awayFromZero (1 + even * d)
      let c := awayFromZero (1 + even / c)
      let h := h * d * c
      let odd := -(a + k) * (a + b + k) * x / ((a + k * 2) * (a + 1 + k * 2))
      let d := 1 / awayFromZero (1 + odd * d)
      let c := awayFromZero (1 + odd / c)
      let change := d * c
      if Float.abs (change - 1) ≤ halfUlp then h * change
      else betaFraction a b x more (m + 1) c d (h * change)

/-- Whether `x` is zero or one up to the rounding of doubles next to one. The power of `x` in front
of the continued fraction counts as zero there. -/
def isEnd (x : Float) : Bool :=
  Float.abs x ≤ 2 * halfUlp || Float.abs (x - 1) ≤ 4 * halfUlp

def betaRegularized (a b x : Float) : Float :=
  let front :=
    if isEnd x then 0
    else Float.exp (logGamma (a + b) - logGamma a - logGamma b + a * Float.log x +
      b * Float.log (1 - x))
  let tail (a b x : Float) : Float :=
    let d := 1 / awayFromZero (1 - (a + b) * x / (a + 1))
    front * betaFraction a b x 140 1 1 d d / a
  if (a + 1) / (a + b + 2) ≤ x then 1 - tail b a (1 - x) else tail a b x

/-- A first guess at the point below which the beta distribution has the mass `x`, at most one
half. -/
def betaGuess (a b x : Float) : Float :=
  let r := Float.sqrt (-Float.log (x * x))
  let y := r - (2.30753 + 0.27061 * r) / (1 + (0.99229 + 0.04481 * r) * r)
  let guess :=
    if 1 < a && 1 < b then
      let r := (y * y - 3) / 6
      let s := 1 / (2 * a - 1)
      let t := 1 / (2 * b - 1)
      let h := 2 / (s + t)
      let w := y * Float.sqrt (h + r) / h - (t - s) * (r + 5 / 6 - 2 / (3 * h))
      a / (a + b * Float.exp (2 * w))
    else
      let t := 1 / (9 * b)
      let chi := 2 * b * Float.pow (1 - t + y * Float.sqrt t) 3
      if chi ≤ 0 then 1 - Float.exp ((Float.log ((1 - x) * b) + logBeta a b) / b)
      else
        let t := 2 * (2 * a + b - 1) / chi
        if t ≤ 1 then Float.exp ((Float.log (x * a) + logBeta a b) / a)
        else 1 - 2 / (t + 1)
  if guess < 0.0001 then 0.0001 else if 0.9999 < guess then 0.9999 else guess

/-- A step from `p` against `slope`, cut to a third until its square is below `limit` and it stays
in `[0, 1]`. The result is the new point, the square and the factor that is left. -/
def shortenedStep (p slope limit factor : Float) : Float × Float × Float :=
  repeatUntil (fun factor =>
    let step := factor * slope
    let next := p - step
    if step * step < limit && 0 ≤ next && next ≤ 1 then .inr (next, step * step, factor)
    else .inl (factor / 3)) factor

/-- A step that does not end on the border, unless the target accuracy is reached. The flag says
that it is. -/
def innerStep (p slope limit accuracy : Float) : Float × Float × Bool :=
  repeatUntil (fun factor =>
    let (next, square, factor) := shortenedStep p slope limit factor
    if limit ≤ accuracy || slope * slope ≤ accuracy then .inr (next, square, true)
    else if next == 0 || next == 1 then .inl (factor / 3)
    else .inr (next, square, false)) (1 : Float)

/-- Newton steps for the point below which the beta distribution has the mass `x`. The bound on a
step is lowered to the last one whenever the direction turns. -/
def betaNewton (a b x accuracy start : Float) : Float :=
  repeatUntil (fun (p, lastSlope, square, limit) =>
    let excess := betaRegularized a b p - x
    let slope := excess *
      Float.exp (logBeta a b + (1 - a) * Float.log p + (1 - b) * Float.log (1 - p))
    let limit :=
      if slope * lastSlope ≤ 0 then (if 1e-30 < square then square else 1e-30) else limit
    let (next, square, done) := innerStep p slope limit accuracy
    if done then .inr next
    else if next == p then .inr p
    else .inl (next, slope, square, limit)) (start, (0 : Float), (1 : Float), (1 : Float))

/-- The power of ten whose exponent is the integer part of `e`, which is negative, but no less than
`10 ^ -30`. -/
def accuracyOf (e : Float) : Float :=
  let places := (-e).toUInt64.toNat
  if places < 30 then Float.ofScientific 1 true places else 1e-30

/-- The point below which the beta distribution has the mass `x`. -/
def betaQuantile (a b x : Float) : Float :=
  if x == 0 then 0
  else if x == 1 then 1
  else
    let lower (a b x : Float) : Float :=
      let accuracy := accuracyOf (-5 / a / a - 1 / Float.pow x 0.2 - 13)
      betaNewton a b x accuracy (betaGuess a b x)
    if 0.5 < x then 1 - lower b a (1 - x) else lower a b x

end ChartCompiler.Statistics
