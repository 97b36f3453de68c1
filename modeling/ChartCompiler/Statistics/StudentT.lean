import ChartCompiler.Decimal.Dyadic
import ChartCompiler.Statistics.Beta
import ChartCompiler.Statistics.Moments

/-!
# Confidence intervals

The half-width of the interval around a mean is a quantile of Student's distribution, or of the
normal distribution where the degrees of freedom make no sense.
-/

namespace ChartCompiler.Statistics

/-- The value at `x` of the polynomial with the given coefficients, highest power first. -/
def polynomial (coefficients : List Float) (x : Float) : Float :=
  match coefficients with
  | [] => 0
  | first :: rest => rest.foldl (fun y c => y * x + c) first

/-- The standard normal quantile in the lower tail, by a rational approximation. -/
def normalTail (p : Float) : Float :=
  let q := Float.sqrt (-2 * Float.log p)
  polynomial [-7.784894002430293e-3, -3.223964580411365e-1, -2.400758277161838,
      -2.549732539343734, 4.374664141464968, 2.938163982698783] q /
    polynomial [7.784695709041462e-3, 3.224671290700398e-1, 2.445134137142996,
      3.754408661907416, 1] q

/-- The standard normal quantile in the middle, by a rational approximation. -/
def normalCenter (p : Float) : Float :=
  let q := p - 0.5
  let r := q * q
  polynomial [-3.969683028665376e1, 2.209460984245205e2, -2.759285104469687e2,
      1.383577518672690e2, -3.066479806614716e1, 2.506628277459239] r * q /
    polynomial [-5.447609879822406e1, 1.615858368580409e2, -1.556989798598866e2,
      6.680131188771972e1, -1.328068155288572e1, 1] r

def normalQuantile (p : Float) : Float :=
  let p := clamp 1e-12 (1 - 1e-12) p
  if p < 0.02425 then normalTail p
  else if p ≤ 1 - 0.02425 then normalCenter p
  else -normalTail (1 - p)

/-- The quantile of Student's distribution for `p` from one half up. -/
def studentQuantile (freedom p : Float) : Float :=
  let y := betaQuantile (0.5 * freedom) 0.5 (2 * (1 - p))
  Float.sqrt (freedom * (1 - y) / y)

/-- How many standard errors a two-sided interval reaches, for a confidence level in percent. -/
def criticalValue (confidence freedom : Float) : Float :=
  let level := clamp 0 0.999999 (confidence / 100)
  let p := 0.5 + level / 2
  if 0 < freedom then studentQuantile freedom p else normalQuantile p

/-- Half the width of the confidence interval around the mean, zero for fewer than two values. -/
def confidenceHalfWidth (values : List Float) (confidence : Float) : Float :=
  if values.length < 2 then 0
  else criticalValue confidence (Float.ofNat (values.length - 1)) * standardError values

end ChartCompiler.Statistics
