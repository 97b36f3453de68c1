import ChartCompiler.Plot.Area
import ChartCompiler.Statistics.StudentT

/-!
# Charts with error bars

Each category has a mean, and over it a bar from a lower to an upper end. The categories stand along
x and the values along y whatever the orientation.
-/

namespace ChartCompiler

open Statistics

def ErrorBar.dispersion (e : ErrorBar) (values : List Float) : Float :=
  match e.kind with
  | .standardError => standardError values
  | .standardDeviation => standardDeviation values
  | .confidence => confidenceHalfWidth values e.confidenceLevel
  | .quartiles => quartileRange values

structure ErrorBarPoint where
  category : String
  center : Float
  dispersion : Float
  low : Float
  high : Float
  count : Nat

/-- The point of a category that has numbers. A bar of quartiles ends at the quartiles, every other
one its spread away from the mean. -/
def ErrorBarPoint.of? (e : ErrorBar) (category : String) (values : List Float) :
    Option ErrorBarPoint :=
  (mean? values).map fun center =>
    let dispersion := e.dispersion values
    let (low, high) :=
      match e.kind with
      | .quartiles =>
          let data := sorted values
          (percentile data 0.25, percentile data 0.75)
      | _ => (center - dispersion, center + dispersion)
    { category, center, dispersion, low, high, count := values.length }

def ChartType.meanMark : ChartType → SeriesType
  | line | area => .line
  | errorBar | scatter => .scatter
  | _ => .bar

/-- A plot area and the points behind its error bars. -/
structure ErrorBarChart where
  area : PlotArea
  points : List ErrorBarPoint

def ErrorBarChart.build (chartType : ChartType) (encoding : Encoding) (e : ErrorBar)
    (rows : Table) : ErrorBarChart :=
  let x := encoding.x.field
  let y := encoding.y.field
  let groups := rows.groupValues x y
  let points := groups.filterMap fun (category, values) => ErrorBarPoint.of? e category values
  let means : Series :=
    .plain chartType.meanMark encoding.y.displayName [x, y] (.pair x y)
      (groups.map fun (category, values) => [.text category, .ofNumber? (mean? values)])
  let overlay : Series :=
    { Series.plain .custom "error" [x, "low", "high"] ⟨.one x, .many ["low", "high"]⟩
        (points.map fun p => [.text p.category, .number p.low, .number p.high]) with
      itemColor := some "#333333"
      renderItem := some "errorBar"
      z := some 10 }
  { area := {
      axes := {
        x := .categories encoding.x.displayName groups.keys
        y := .values encoding.y.displayName }
      series := [means, overlay] }
    points }

end ChartCompiler
