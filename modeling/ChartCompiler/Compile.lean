import ChartCompiler.Config.Typography
import ChartCompiler.Feature.Precedence
import ChartCompiler.Plot.DualAxis
import ChartCompiler.Plot.ErrorBar
import ChartCompiler.Plot.Facet
import ChartCompiler.Plot.Overlay
import ChartCompiler.Spec.Validity

/-!
# Compiling specifications

`compile` turns a valid specification and the rows of its data into a configuration for the
renderer. The features that stay after resolution choose one of three figures: means with error
bars, small multiples, or a single plot that may have a secondary axis. Labels, overlays, legend,
tooltip and fonts follow.
-/

namespace ChartCompiler

/-- What is drawn, before labels and fonts: axes, boxes, series and the titles of the boxes. -/
structure Figure where
  xAxis : OneOrMany Axis
  yAxis : OneOrMany Axis
  grid : Option (List Grid)
  series : List Series
  titles : List Graphic

namespace Figure

def ofArea (area : PlotArea) : Figure where
  xAxis := .one area.axes.x
  yAxis := .one area.axes.y
  grid := none
  series := area.series
  titles := []

/-- Small multiples. -/
def ofFacets (chart : FacetChart) : Figure where
  xAxis := .many (chart.areas.map (·.axes.x))
  yAxis := .many (chart.areas.map (·.axes.y))
  grid := some chart.grids
  series := chart.series
  titles := chart.titles

def withDualAxis (area : PlotArea) (dual : DualAxis) : Figure where
  xAxis := .one area.axes.x
  yAxis := .many dual.yAxes
  grid := none
  series := area.series ++ [dual.series]
  titles := []

end Figure

namespace ChartSpec

/-- A line shall be fitted to the points of a scatter chart. -/
def wantsTrendline (spec : ChartSpec) : Bool :=
  spec.chartType = .scatter && spec.trendline = some .linear

/-- The error bar of the specification, or else one of standard errors. -/
def errorBarOrUsual (spec : ChartSpec) : ErrorBar :=
  spec.errorBar.getD ⟨.standardError, none⟩

def errorBarFigure (spec : ChartSpec) (rows : Table) : Figure :=
  .ofArea (ErrorBarChart.build spec.chartType spec.encoding spec.errorBarOrUsual rows).area

def facetFigure (spec : ChartSpec) (facet : Facet) (horizontal : Bool) (rows : Table) : Figure :=
  .ofFacets (FacetChart.build spec.chartType spec.encoding facet rows horizontal
    spec.wantsTrendline)

def plainFigure (spec : ChartSpec) (resolution : Resolution) (palette : List String)
    (rows : Table) : Figure :=
  let request : SeriesRequest := {
    chartType := spec.chartType
    x := spec.encoding.x
    y := spec.encoding.y
    group := if resolution.isActive .colorGroup then spec.encoding.color else none
    trendline := spec.wantsTrendline }
  let set := request.build rows
  let area := PlotArea.upright spec.chartType spec.encoding set
  match if resolution.isActive .dualAxis then spec.encoding.y2 else none with
  | some y2 =>
      .withDualAxis area
        (DualAxis.build area.axes.y spec.encoding.x y2 (set.categories.getD []) rows palette)
  | none => .ofArea (area.oriented (resolution.isActive .horizontal))

def figure (spec : ChartSpec) (resolution : Resolution) (palette : List String) (rows : Table) :
    Figure :=
  if resolution.isActive .errorBar then spec.errorBarFigure rows
  else
    match if resolution.isActive .facet then spec.facet else none with
    | some facet => spec.facetFigure facet (resolution.isActive .horizontal) rows
    | none => spec.plainFigure resolution palette rows

end ChartSpec

/-- A legend names the series where a colour or a second axis tells them apart. -/
def Legend.of (resolution : Resolution) (series : List Series) : Legend :=
  if !resolution.isActive .facet &&
      (resolution.isActive .colorGroup || resolution.isActive .dualAxis) then
    ⟨true, some (series.map Series.name), .unset⟩
  else ⟨false, none, .unset⟩

/-- Points and boxes call up a tooltip one by one, all other charts by axis. -/
def ChartType.trigger : ChartType → TooltipTrigger
  | scatter | boxplot | violin => .item
  | _ => .axis

/-- The tooltip marks its place with a cross between two axes, and with a shadow behind bars. -/
def Tooltip.of (chartType : ChartType) (resolution : Resolution) : Tooltip where
  trigger := chartType.trigger
  axisPointer :=
    if resolution.isActive .dualAxis then some .cross
    else if chartType.isBar && chartType.trigger = .axis then some .shadow
    else none
  textStyle := .unset

namespace ChartSpec

/-- The configuration that shows a figure, with its labels, overlays, legend, tooltip and fonts. -/
def present (spec : ChartSpec) (resolution : Resolution) (figure : Figure) : RenderConfig :=
  let theme := spec.style.theme
  let series :=
    if theme.showDataLabels then
      figure.series.map (Series.withLabels (resolution.isActive .horizontal))
    else figure.series
  let graphics := figure.titles ++ spec.annotations.map Annotation.graphic
  RenderConfig.withTheme theme {
    xAxis := figure.xAxis
    yAxis := figure.yAxis
    grid := figure.grid
    series
    graphic := if graphics.isEmpty then none else some graphics
    legend := .of resolution series
    tooltip := .of spec.chartType resolution
    color := theme.palette
    textStyle := .unset }

/-- The configuration of a specification, whether it is valid or not. -/
def config (spec : ChartSpec) (rows : Table) : RenderConfig :=
  let resolution := spec.resolution
  spec.present resolution (spec.figure resolution spec.style.theme.palette rows)

end ChartSpec

/-- The configuration for a specification and its rows, or all that is wrong with the
specification. -/
def compile (spec : ChartSpec) (rows : Table) : Except (List Violation) RenderConfig :=
  let violations := spec.violations
  if violations.isEmpty then .ok (spec.config rows) else .error violations

end ChartCompiler
