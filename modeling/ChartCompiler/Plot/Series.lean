import ChartCompiler.Config.Basic
import ChartCompiler.Decimal.Layout
import ChartCompiler.Statistics.Density
import ChartCompiler.Statistics.Histogram
import ChartCompiler.Statistics.Regression
import ChartCompiler.Table.Grouping

/-!
# The series of each chart type

Charts over categories show the mean of the rows of each category, with categories in the order in
which they are first seen. Cells that cannot be read are passed over.
-/

namespace ChartCompiler

open Statistics

structure SeriesRequest where
  chartType : ChartType
  x : FieldDef
  y : FieldDef
  /-- The field whose labels split the rows into series, if they are split. -/
  group : Option FieldDef
  trendline : Bool

/-- Series, and what their axes have to know of them. -/
structure SeriesSet where
  /-- The categories, or none if the first axis shows numbers. -/
  categories : Option (List String)
  series : List Series
  /-- Least and greatest value, if there is any. -/
  extent : Option (Float × Float)

def ChartType.mark : ChartType → SeriesType
  | line | area => .line
  | scatter | errorBar => .scatter
  | boxplot => .boxplot
  | violin => .custom
  | bar | groupedBar | stackedBar | histogram => .bar

/-- The mean of each category's group. A category without numbers has none. -/
def meansFor (categories : List String) (groups : Groups Float) : List (Option Float) :=
  categories.map fun category => (groups.lookup category).bind mean?

def Datum.ofNumber? : Option Float → Datum
  | some x => .number x
  | none => .gap

def categoryPoints (categories : List String) (values : List (Option Float)) : List Point :=
  categories.zipWith (fun category value => [.text category, .ofNumber? value]) values

namespace SeriesRequest

/-- A series over the two fields, with what the chart type adds to the mark. -/
def series (request : SeriesRequest) (type : SeriesType) (name : String) (data : List Point) :
    Series :=
  let x := request.x.field
  let y := request.y.field
  { Series.plain type name [x, y] (.pair x y) data with
    stack := if request.chartType = .stackedBar then some "total" else none
    fillsArea := request.chartType = .area }

def wholeSeries (request : SeriesRequest) (rows : Table) : SeriesSet :=
  let groups := rows.groupValues request.x.field request.y.field
  let means := meansFor groups.keys groups
  { categories := some groups.keys
    series := [request.series request.chartType.mark request.y.displayName
      (categoryPoints groups.keys means)]
    extent := extent? (means.filterMap id) }

def groupMeans (request : SeriesRequest) (group : FieldDef) (rows : Table)
    (categories : List String) (key : String) : List (Option Float) :=
  meansFor categories
    ((rows.withLabel group.field key).groupValues request.x.field request.y.field)

/-- Adds a group's means to the height of each category's stack. -/
def stackOnto (heights : List Float) (means : List (Option Float)) : List Float :=
  heights.zipWith (fun height mean => height + mean.getD 0) means

def groupedSeries (request : SeriesRequest) (group : FieldDef) (rows : Table) : SeriesSet :=
  let categories := rows.distinctLabels request.x.field
  let keys := rows.distinctLabels group.field
  let means := keys.map (request.groupMeans group rows categories)
  let allMeans := means.flatten.filterMap id
  let heights := means.foldl stackOnto (List.replicate categories.length 0)
  { categories := some categories
    series := keys.zipWith (fun key means =>
      request.series request.chartType.mark key (categoryPoints categories means)) means
    extent := extent? (if request.chartType = .stackedBar then heights ++ allMeans else allMeans) }

def categorySeries (request : SeriesRequest) (rows : Table) : SeriesSet :=
  match request.group with
  | none => request.wholeSeries rows
  | some group => request.groupedSeries group rows

def scatterPoints (request : SeriesRequest) (rows : Table) : List Point :=
  (rows.numberPairs request.x.field request.y.field).map fun (a, b) => [.number a, .number b]

/-- The line fitted to pairs of numbers, from the least to the greatest first number. -/
def trendSeries? (request : SeriesRequest) (pairs : List (Float × Float)) : Option Series :=
  (fit? pairs).map fun line =>
    let xs := pairs.map Prod.fst
    let ends := [least xs, greatest xs].map fun x => [.number x, .number (line.height x)]
    { request.series .line "Linear fit" ends with
      showSymbol := some false
      lineStyle := some { color := none, dash := some [6, 4] } }

/-- The series of a scatter chart: the points, split by group if there is one, and a fitted line. -/
def scatterSeries (request : SeriesRequest) (rows : Table) : SeriesSet :=
  let points :=
    match request.group with
    | none => [request.series .scatter request.y.displayName (request.scatterPoints rows)]
    | some group =>
        (rows.distinctLabels group.field).map fun key =>
          request.series .scatter key (request.scatterPoints (rows.withLabel group.field key))
  let pairs := rows.numberPairs request.x.field request.y.field
  let trend := if request.trendline then (request.trendSeries? pairs).toList else []
  { categories := none
    series := points ++ trend
    extent := extent? (pairs.map Prod.snd) }

/-- The name of a bin by its middle, with decimals to fit its width, two to twelve. -/
def binLabel (bin : Bin) : String :=
  let width := bin.stop - bin.start
  let places :=
    if 0 < width && width.isFinite then max 2 (min 12 (ceilNat (-Float.log10 width) + 1)) else 2
  Decimal.trimPlaces (Decimal.fixed places bin.center)

def countDimension : String := "count"

/-- A bar for each bin of the numbers in the first field. -/
def histogramSeries (request : SeriesRequest) (rows : Table) : SeriesSet :=
  let values := rows.filterMap fun row => row.number? request.x.field
  let bins := histogram values (defaultBinCount values.length)
  let x := request.x.field
  { categories := some (bins.map binLabel)
    series := [.plain .bar request.x.displayName [x, countDimension] (.pair x countDimension)
      (bins.map fun bin => [.text (binLabel bin), .count bin.count])]
    extent := extent? (bins.map fun bin => Float.ofNat bin.count) }

def boxDimensions : List String :=
  ["min", "Q1", "median", "Q3", "max"]

def boxplotSeries (request : SeriesRequest) (rows : Table) : SeriesSet :=
  let x := request.x.field
  let boxes := (rows.groupValues x request.y.field).filterMap fun (category, values) =>
    (BoxSummary.of? values).map fun box => (category, box)
  let outliers := boxes.flatMap fun (category, box) =>
    box.outliers.map fun v => [.text category, .number v]
  let boxSeries : Series :=
    .plain .boxplot request.y.displayName (x :: boxDimensions) ⟨.one x, .many boxDimensions⟩
      (boxes.map fun (category, box) =>
        [.text category, .number box.lowerWhisker, .number box.lowerQuartile, .number box.median,
          .number box.upperQuartile, .number box.upperWhisker])
  { categories := some (boxes.map Prod.fst)
    series := boxSeries ::
      (if outliers.isEmpty then [] else [request.series .scatter "Outliers" outliers])
    extent := extent? (boxes.flatMap fun (_, box) =>
      box.outliers ++ [box.lowerWhisker, box.upperWhisker]) }

def violinPoints : Nat := 64

def violinSeries (request : SeriesRequest) (rows : Table) : SeriesSet :=
  let x := request.x.field
  let y := request.y.field
  let violins := (rows.groupValues x y).filterMap fun (category, values) =>
    if values.isEmpty then none
    else some (category, Density.of values (bandwidth values) violinPoints)
  let data := violins.flatMap fun (category, curve) =>
    curve.grid.zipWith (fun place height => [.text category, .number place, .number height])
      curve.density
  { categories := some (violins.map Prod.fst)
    series := [
      { Series.plain .custom request.y.displayName [x, y, "density"] (.pair x y) data with
        renderItem := some "violin" }]
    extent := extent? (violins.flatMap fun (_, curve) => curve.grid) }

def build (request : SeriesRequest) (rows : Table) : SeriesSet :=
  match request.chartType with
  | .bar | .groupedBar | .stackedBar | .line | .area | .errorBar => request.categorySeries rows
  | .scatter => request.scatterSeries rows
  | .histogram => request.histogramSeries rows
  | .boxplot => request.boxplotSeries rows
  | .violin => request.violinSeries rows

end SeriesRequest

end ChartCompiler
