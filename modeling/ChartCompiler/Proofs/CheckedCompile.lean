import ChartCompiler.Proofs.Indices
import ChartCompiler.Proofs.Omission
import ChartCompiler.Proofs.Slots

/-!
# Compiling with checks

`Checked.compile` takes the way of `compile`, with every slot, index and
divisor checked: it has no result as soon as one of them fails. Each stage has
one lemma, which says that the stage has the result it has without checks,
because the checked computations it starts from have theirs. The last one is
that no specification and no rows make any of them fail.
-/

namespace ChartCompiler

namespace Checked

open Statistics

/-- Where each item has a result, the list of them has one. -/
theorem mapM_eq_some {α β : Type} {f : α → Option β} {g : α → β} (hf : ∀ a, f a = some (g a))
    (items : List α) : items.mapM f = some (items.map g) := by
  rw [funext hf]
  exact List.mapM_pure

/-! ## Series -/

def wholeSeries (request : SeriesRequest) (rows : Table) : Option SeriesSet := do
  let groups ← groupValues rows request.x.field request.y.field
  let means := meansFor groups.keys groups
  return {
    categories := some groups.keys
    series := [request.series request.chartType.mark request.y.displayName
      (categoryPoints groups.keys means)]
    extent := extent? (means.filterMap id) }

@[simp]
theorem wholeSeries_eq (request : SeriesRequest) (rows : Table) :
    wholeSeries request rows = some (request.wholeSeries rows) := by
  unfold wholeSeries
  rw [groupValues_eq]
  rfl

def groupMeans (request : SeriesRequest) (group : FieldDef) (rows : Table)
    (categories : List String) (key : String) : Option (List (Option Float)) := do
  let groups ← groupValues (rows.withLabel group.field key) request.x.field request.y.field
  return meansFor categories groups

@[simp]
theorem groupMeans_eq (request : SeriesRequest) (group : FieldDef) (rows : Table)
    (categories : List String) (key : String) :
    groupMeans request group rows categories key =
      some (request.groupMeans group rows categories key) := by
  unfold groupMeans
  rw [groupValues_eq]
  rfl

def groupedSeries (request : SeriesRequest) (group : FieldDef) (rows : Table) :
    Option SeriesSet := do
  let categories := rows.distinctLabels request.x.field
  let keys := rows.distinctLabels group.field
  let means ← keys.mapM (groupMeans request group rows categories)
  let allMeans := means.flatten.filterMap id
  let heights := means.foldl SeriesRequest.stackOnto (List.replicate categories.length 0)
  return {
    categories := some categories
    series := keys.zipWith (fun key means =>
      request.series request.chartType.mark key (categoryPoints categories means)) means
    extent := extent? (if request.chartType = .stackedBar then heights ++ allMeans else allMeans) }

@[simp]
theorem groupedSeries_eq (request : SeriesRequest) (group : FieldDef) (rows : Table) :
    groupedSeries request group rows = some (request.groupedSeries group rows) := by
  unfold groupedSeries
  dsimp only
  rw [mapM_eq_some (groupMeans_eq request group rows _)]
  rfl

def histogramSeries (request : SeriesRequest) (rows : Table) : Option SeriesSet := do
  let values := rows.filterMap fun row => row.number? request.x.field
  let bins ← histogram values (defaultBinCount values.length)
  let x := request.x.field
  return {
    categories := some (bins.map SeriesRequest.binLabel)
    series := [.plain .bar request.x.displayName [x, SeriesRequest.countDimension]
      (.pair x SeriesRequest.countDimension)
      (bins.map fun bin => [.text (SeriesRequest.binLabel bin), .count bin.count])]
    extent := extent? (bins.map fun bin => Float.ofNat bin.count) }

@[simp]
theorem histogramSeries_eq (request : SeriesRequest) (rows : Table) :
    histogramSeries request rows = some (request.histogramSeries rows) := by
  unfold histogramSeries
  dsimp only
  rw [histogram_eq (defaultBinCount_pos _)]
  rfl

def categoryBox (entry : String × List Float) : Option (Option (String × BoxSummary)) := do
  let summary ← boxSummary entry.2
  return summary.map fun box => (entry.1, box)

@[simp]
theorem categoryBox_eq (entry : String × List Float) :
    categoryBox entry = some ((BoxSummary.of? entry.2).map fun box => (entry.1, box)) := by
  unfold categoryBox
  rw [boxSummary_eq]
  rfl

def boxplotSeries (request : SeriesRequest) (rows : Table) : Option SeriesSet := do
  let x := request.x.field
  let groups ← groupValues rows x request.y.field
  let summaries ← groups.mapM categoryBox
  let boxes := summaries.filterMap id
  let outliers := boxes.flatMap fun (category, box) =>
    box.outliers.map fun v => [.text category, .number v]
  let boxSeries : Series :=
    .plain .boxplot request.y.displayName (x :: SeriesRequest.boxDimensions)
      ⟨.one x, .many SeriesRequest.boxDimensions⟩
      (boxes.map fun (category, box) =>
        [.text category, .number box.lowerWhisker, .number box.lowerQuartile, .number box.median,
          .number box.upperQuartile, .number box.upperWhisker])
  return {
    categories := some (boxes.map Prod.fst)
    series := boxSeries ::
      (if outliers.isEmpty then [] else [request.series .scatter "Outliers" outliers])
    extent := extent? (boxes.flatMap fun (_, box) =>
      box.outliers ++ [box.lowerWhisker, box.upperWhisker]) }

@[simp]
theorem boxplotSeries_eq (request : SeriesRequest) (rows : Table) :
    boxplotSeries request rows = some (request.boxplotSeries rows) := by
  unfold boxplotSeries
  dsimp only
  rw [groupValues_eq, Option.bind_eq_bind, Option.bind_some, mapM_eq_some categoryBox_eq,
    Option.bind_eq_bind, Option.bind_some, List.filterMap_map]
  rfl

def categoryCurve (entry : String × List Float) : Option (Option (String × Density)) :=
  if entry.2.isEmpty then some none
  else do
    let width ← bandwidth entry.2
    return some (entry.1, Density.of entry.2 width SeriesRequest.violinPoints)

@[simp]
theorem categoryCurve_eq (entry : String × List Float) :
    categoryCurve entry =
      some (if entry.2.isEmpty then none
        else some (entry.1,
          Density.of entry.2 (Statistics.bandwidth entry.2) SeriesRequest.violinPoints)) := by
  unfold categoryCurve
  rw [bandwidth_eq]
  split_ifs <;> rfl

def violinSeries (request : SeriesRequest) (rows : Table) : Option SeriesSet := do
  let x := request.x.field
  let y := request.y.field
  let groups ← groupValues rows x y
  let curves ← groups.mapM categoryCurve
  let violins := curves.filterMap id
  let data := violins.flatMap fun (category, curve) =>
    curve.grid.zipWith (fun place height => [.text category, .number place, .number height])
      curve.density
  return {
    categories := some (violins.map Prod.fst)
    series := [
      { Series.plain .custom request.y.displayName [x, y, "density"] (.pair x y) data with
        renderItem := some "violin" }]
    extent := extent? (violins.flatMap fun (_, curve) => curve.grid) }

@[simp]
theorem violinSeries_eq (request : SeriesRequest) (rows : Table) :
    violinSeries request rows = some (request.violinSeries rows) := by
  unfold violinSeries
  dsimp only
  rw [groupValues_eq, Option.bind_eq_bind, Option.bind_some, mapM_eq_some categoryCurve_eq,
    Option.bind_eq_bind, Option.bind_some, List.filterMap_map]
  rfl

/-- The series that a request asks for. Scatter charts read their rows in order and use no index. -/
def build (request : SeriesRequest) (rows : Table) : Option SeriesSet :=
  match request.chartType with
  | .bar | .groupedBar | .stackedBar | .line | .area | .errorBar =>
      match request.group with
      | none => wholeSeries request rows
      | some group => groupedSeries request group rows
  | .scatter => some (request.scatterSeries rows)
  | .histogram => histogramSeries request rows
  | .boxplot => boxplotSeries request rows
  | .violin => violinSeries request rows

@[simp]
theorem build_eq (request : SeriesRequest) (rows : Table) :
    build request rows = some (request.build rows) := by
  unfold build SeriesRequest.build SeriesRequest.categorySeries
  cases request.chartType <;> cases request.group <;> simp only [wholeSeries_eq, groupedSeries_eq,
    histogramSeries_eq, boxplotSeries_eq, violinSeries_eq]

/-! ## Error bars -/

def dispersion (e : ErrorBar) (values : List Float) : Option Float :=
  match e.kind with
  | .standardError => some (standardError values)
  | .standardDeviation => some (standardDeviation values)
  | .confidence => some (confidenceHalfWidth values e.confidenceLevel)
  | .quartiles => quartileRange values

@[simp]
theorem dispersion_eq (e : ErrorBar) (values : List Float) :
    dispersion e values = some (e.dispersion values) := by
  unfold dispersion ErrorBar.dispersion
  cases e.kind with
  | standardError => rfl
  | standardDeviation => rfl
  | confidence => rfl
  | quartiles => exact quartileRange_eq values

/-- The ends of a bar: of quartiles the quartiles, of every other one its spread away from the
mean. -/
def barEnds (e : ErrorBar) (center dispersion : Float) (values : List Float) :
    Option (Float × Float) :=
  match e.kind with
  | .quartiles => do
      let data := sorted values
      let low ← percentile data 0.25
      let high ← percentile data 0.75
      return (low, high)
  | _ => some (center - dispersion, center + dispersion)

def errorBarPoint (e : ErrorBar) (entry : String × List Float) : Option (Option ErrorBarPoint) :=
  match mean? entry.2 with
  | none => some none
  | some center => do
      let dispersion ← dispersion e entry.2
      let ends ← barEnds e center dispersion entry.2
      return some {
        category := entry.1
        center
        dispersion
        low := ends.1
        high := ends.2
        count := entry.2.length }

@[simp]
theorem errorBarPoint_eq (e : ErrorBar) (entry : String × List Float) :
    errorBarPoint e entry = some (ErrorBarPoint.of? e entry.1 entry.2) := by
  unfold errorBarPoint ErrorBarPoint.of?
  cases mean? entry.2 with
  | none => rfl
  | some center =>
      dsimp only
      rw [dispersion_eq, Option.bind_eq_bind, Option.bind_some, barEnds]
      cases e.kind with
      | quartiles =>
          dsimp only
          rw [percentile_eq .lower, percentile_eq .upper]
          rfl
      | standardError | standardDeviation | confidence => rfl

def errorBarChart (chartType : ChartType) (encoding : Encoding) (e : ErrorBar) (rows : Table) :
    Option ErrorBarChart := do
  let x := encoding.x.field
  let y := encoding.y.field
  let groups ← groupValues rows x y
  let dispersed ← groups.mapM (errorBarPoint e)
  let points := dispersed.filterMap id
  let means : Series :=
    .plain chartType.meanMark encoding.y.displayName [x, y] (.pair x y)
      (groups.map fun (category, values) => [.text category, .ofNumber? (mean? values)])
  let overlay : Series :=
    { Series.plain .custom "error" [x, "low", "high"] ⟨.one x, .many ["low", "high"]⟩
        (points.map fun p => [.text p.category, .number p.low, .number p.high]) with
      itemColor := some "#333333"
      renderItem := some "errorBar"
      z := some 10 }
  return {
    area := {
      axes := {
        x := .categories encoding.x.displayName groups.keys
        y := .values encoding.y.displayName }
      series := [means, overlay] }
    points }

@[simp]
theorem errorBarChart_eq (chartType : ChartType) (encoding : Encoding) (e : ErrorBar)
    (rows : Table) :
    errorBarChart chartType encoding e rows =
      some (ErrorBarChart.build chartType encoding e rows) := by
  unfold errorBarChart
  dsimp only
  rw [groupValues_eq, Option.bind_eq_bind, Option.bind_some, mapM_eq_some (errorBarPoint_eq e),
    Option.bind_eq_bind, Option.bind_some, List.filterMap_map]
  rfl

/-! ## Secondary axes and small multiples -/

def dualAxis (primary : Axis) (x y2 : FieldDef) (categories : List String) (rows : Table)
    (colors : List String) : Option DualAxis := do
  let groups ← groupValues rows x.field y2.field
  let means := meansFor categories groups
  let color ← pick colors DualAxis.colorSlot
  return {
    yAxes := [
      { primary with position := some .left },
      { Axis.values y2.displayName with position := some .right }]
    series :=
      { Series.plain .line y2.displayName [x.field, y2.field] (.pair x.field y2.field)
          (categoryPoints categories means) with
        yAxisIndex := some 1
        itemColor := color
        lineStyle := color.map fun c => { color := some c, dash := none } } }

@[simp]
theorem dualAxis_eq (primary : Axis) (x y2 : FieldDef) (categories : List String) (rows : Table)
    (colors : List String) :
    dualAxis primary x y2 categories rows colors =
      some (DualAxis.build primary x y2 categories rows colors) := by
  unfold dualAxis
  rw [groupValues_eq, pick_eq]
  rfl

def facetChart (chartType : ChartType) (encoding : Encoding) (facet : Facet) (rows : Table)
    (horizontal trendline : Bool) : Option FacetChart := do
  let parts ← partition rows facet.field
  let layout ← layout parts.length facet.columnCount
  let request : SeriesRequest := {
    chartType, x := encoding.x, y := encoding.y, group := none, trendline }
  let sets ← parts.mapM fun (_, rows) => build request rows
  let shared := if facet.shareAxis then FacetChart.sharedExtent? sets else none
  return {
    layout
    groups := parts.keys
    grids := layout.items.map (·.grid facet.showTitle)
    areas := (layout.items.zip sets).map fun (cell, set) =>
      ((FacetChart.shareBounds chartType shared
        (PlotArea.upright chartType encoding set)).oriented horizontal).bind cell.index
    titles :=
      if facet.showTitle then layout.items.zipWith FacetCell.title parts.keys else [] }

@[simp]
theorem facetChart_eq (chartType : ChartType) (encoding : Encoding) (facet : Facet) (rows : Table)
    (horizontal trendline : Bool) :
    facetChart chartType encoding facet rows horizontal trendline =
      some (FacetChart.build chartType encoding facet rows horizontal trendline) := by
  unfold facetChart
  simp only [partition_eq, layout_eq, Option.bind_eq_bind, Option.bind_some, build_eq]
  rw [mapM_eq_some fun _ => rfl, Option.bind_some]
  rfl

/-! ## Figures -/

def plainFigure (spec : ChartSpec) (resolution : Resolution) (palette : List String)
    (rows : Table) : Option Figure := do
  let request : SeriesRequest := {
    chartType := spec.chartType
    x := spec.encoding.x
    y := spec.encoding.y
    group := if resolution.isActive .colorGroup then spec.encoding.color else none
    trendline := spec.wantsTrendline }
  let set ← build request rows
  let area := PlotArea.upright spec.chartType spec.encoding set
  match if resolution.isActive .dualAxis then spec.encoding.y2 else none with
  | some y2 => do
      let dual ← dualAxis area.axes.y spec.encoding.x y2 (set.categories.getD []) rows palette
      return .withDualAxis area dual
  | none => return .ofArea (area.oriented (resolution.isActive .horizontal))

@[simp]
theorem plainFigure_eq (spec : ChartSpec) (resolution : Resolution) (palette : List String)
    (rows : Table) :
    plainFigure spec resolution palette rows =
      some (spec.plainFigure resolution palette rows) := by
  unfold plainFigure ChartSpec.plainFigure
  dsimp only
  rw [build_eq, Option.bind_eq_bind, Option.bind_some]
  generalize (if resolution.isActive .dualAxis then spec.encoding.y2 else none) = second
  cases second with
  | none => rfl
  | some y2 =>
      dsimp only
      rw [dualAxis_eq]
      rfl

def figure (spec : ChartSpec) (resolution : Resolution) (palette : List String) (rows : Table) :
    Option Figure :=
  if resolution.isActive .errorBar then do
    let chart ← errorBarChart spec.chartType spec.encoding spec.errorBarOrUsual rows
    return .ofArea chart.area
  else
    match if resolution.isActive .facet then spec.facet else none with
    | some facet => do
        let chart ← facetChart spec.chartType spec.encoding facet rows
          (resolution.isActive .horizontal) spec.wantsTrendline
        return .ofFacets chart
    | none => plainFigure spec resolution palette rows

@[simp]
theorem figure_eq (spec : ChartSpec) (resolution : Resolution) (palette : List String)
    (rows : Table) :
    figure spec resolution palette rows = some (spec.figure resolution palette rows) := by
  unfold figure ChartSpec.figure
  by_cases hbars : resolution.isActive .errorBar = true
  · rw [if_pos hbars, if_pos hbars, errorBarChart_eq]
    rfl
  · rw [if_neg hbars, if_neg hbars]
    generalize (if resolution.isActive .facet then spec.facet else none) = split
    cases split with
    | none => exact plainFigure_eq spec resolution palette rows
    | some facet =>
        dsimp only
        rw [facetChart_eq]
        rfl

def compile (spec : ChartSpec) (rows : Table) : Option (Except (List Violation) RenderConfig) :=
  let violations := spec.violations
  if violations.isEmpty then do
    let resolution := spec.resolution
    let figure ← figure spec resolution spec.style.theme.palette rows
    return .ok (spec.present resolution figure)
  else some (.error violations)

/-- Compiling with checks is compiling. -/
theorem compile_eq (spec : ChartSpec) (rows : Table) :
    compile spec rows = some (ChartCompiler.compile spec rows) := by
  unfold compile ChartCompiler.compile
  dsimp only
  rw [figure_eq]
  split_ifs <;> rfl

end Checked

namespace ChartSpec

/-- A valid specification compiles for all rows, and on the way every slot and index names an entry
and no divisor is zero. -/
theorem compile_within_bounds {spec : ChartSpec} (hvalid : spec.violations = []) (rows : Table) :
    compile spec rows = .ok (spec.config rows) ∧
      Checked.compile spec rows = some (compile spec rows) :=
  ⟨compile_eq_ok hvalid rows, Checked.compile_eq spec rows⟩

theorem compile_within_bounds_crowded :
    crowded.violations = [] ∧
      compile crowded .sales = .ok (crowded.config .sales) ∧
      Checked.compile crowded .sales = some (compile crowded .sales) :=
  ⟨violations_crowded, compile_within_bounds violations_crowded .sales⟩

end ChartSpec

end ChartCompiler
