import ChartCompiler.Statistics.Moments

/-!
# Order statistics

Quantiles interpolate between neighbours in sorted data. The box of a box plot takes three of them,
and splits the data into whisker range and outliers.
-/

namespace ChartCompiler.Statistics

/-- The values in the total order of doubles. -/
def sorted (values : List Float) : List Float :=
  values.mergeSort fun a b => Dyadic.rank a ≤ Dyadic.rank b

theorem sorted_perm (values : List Float) : (sorted values).Perm values :=
  List.mergeSort_perm values _

@[simp]
theorem length_sorted (values : List Float) : (sorted values).length = values.length :=
  (sorted_perm values).length_eq

/-- The `p`-quantile of sorted data, between two neighbours their weighted mean. `p` is moved into
`[0, 1]`, and no data have quantile zero. -/
def percentile (data : List Float) (p : Float) : Float :=
  match data with
  | [] => 0
  | [only] => only
  | data =>
      let rank := clamp 0 1 p * Float.ofNat (data.length - 1)
      let lower := floorNat rank
      let upper := ceilNat rank
      if lower = upper then data.getD lower 0
      else
        let weight := rank - Float.ofNat lower
        data.getD lower 0 * (1 - weight) + data.getD upper 0 * weight

def quartileRange (values : List Float) : Float :=
  let data := sorted values
  percentile data 0.75 - percentile data 0.25

/-- A box plot's box, its whiskers and the values beyond them. -/
structure BoxSummary where
  lowerWhisker : Float
  lowerQuartile : Float
  median : Float
  upperQuartile : Float
  upperWhisker : Float
  outliers : List Float

/-- The summary of at least one value. The whiskers end at the outermost values within one and a
half box lengths of the box. -/
def BoxSummary.of? (values : List Float) : Option BoxSummary :=
  if values.isEmpty then none
  else
    let data := sorted values
    let lowerQuartile := percentile data 0.25
    let median := percentile data 0.5
    let upperQuartile := percentile data 0.75
    let range := upperQuartile - lowerQuartile
    let lowerFence := lowerQuartile - 1.5 * range
    let upperFence := upperQuartile + 1.5 * range
    some {
      lowerWhisker := (data.find? (lowerFence ≤ ·)).getD lowerQuartile
      lowerQuartile
      median
      upperQuartile
      upperWhisker := (data.reverse.find? (· ≤ upperFence)).getD upperQuartile
      outliers := data.filter fun v => v < lowerFence || upperFence < v }

end ChartCompiler.Statistics
