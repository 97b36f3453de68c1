import ChartCompiler.Statistics.Moments

/-!
# Least squares
-/

namespace ChartCompiler.Statistics

/-- The line `y = slope · x + intercept`. -/
structure Line where
  slope : Float
  intercept : Float

def Line.height (line : Line) (x : Float) : Float :=
  line.slope * x + line.intercept

/-- The least spread of the first coordinates that a fit needs, `2 ^ -52`. -/
def leastSpread : Float :=
  2.220446049250313e-16

/-- The line of least squares through at least two points that are not all above one another. -/
def fit? (points : List (Float × Float)) : Option Line :=
  if points.length < 2 then none
  else
    let n := Float.ofNat points.length
    let sumX := sum (points.map fun p => p.1)
    let sumY := sum (points.map fun p => p.2)
    let sumXX := sum (points.map fun p => p.1 * p.1)
    let sumXY := sum (points.map fun p => p.1 * p.2)
    let spread := n * sumXX - sumX * sumX
    if Float.abs spread < leastSpread then none
    else
      let slope := (n * sumXY - sumX * sumY) / spread
      some ⟨slope, (sumY - slope * sumX) / n⟩

end ChartCompiler.Statistics
