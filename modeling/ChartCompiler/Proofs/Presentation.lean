import ChartCompiler.Proofs.Grouping
import ChartCompiler.Proofs.Omission

/-!
# What a figure and its presentation read

A figure reads an optional part of the specification only where the resolution
says that its feature stays. Labels, legend and tooltip read the resolution and
never the parts.
-/

namespace ChartCompiler

/-- The figure with one more series, drawn over the others. -/
def Figure.push (s : Series) (figure : Figure) : Figure :=
  { figure with series := figure.series ++ [s] }

namespace ChartSpec

theorem compile_eq_ok {spec : ChartSpec} (hvalid : spec.violations = [])
    (rows : Table) : compile spec rows = .ok (spec.config rows) := by
  rw [compile, hvalid]
  rfl

/-! ## Figures -/

theorem errorBarFigure_without (spec : ChartSpec) {features : List Feature}
    (hkept : .errorBar ∉ features) (rows : Table) :
    (spec.without features).errorBarFigure rows = spec.errorBarFigure rows := by
  have hpart : (spec.without features).errorBar = spec.errorBar := if_neg hkept
  unfold errorBarFigure errorBarOrUsual
  rw [hpart]
  rfl

/-- A part that is read only where its feature stays may be left out where it
does not. -/
theorem ite_isActive_without {α : Type} {r : Resolution} {features : List Feature}
    (hleft : ∀ f ∈ features, r.isActive f = false) (f : Feature) (part : Option α) :
    (if r.isActive f then if f ∈ features then none else part else none) =
      if r.isActive f then part else none := by
  by_cases hmem : f ∈ features
  · rw [hleft f hmem]
    rfl
  · rw [if_neg hmem]

theorem plainFigure_without (spec : ChartSpec) {r : Resolution}
    {features : List Feature} (hleft : ∀ f ∈ features, r.isActive f = false)
    (palette : List String) (rows : Table) :
    (spec.without features).plainFigure r palette rows =
      spec.plainFigure r palette rows := by
  have hcolor := ite_isActive_without hleft .colorGroup spec.encoding.color
  have hy2 := ite_isActive_without hleft .dualAxis spec.encoding.y2
  unfold plainFigure
  simp only [without, wantsTrendline, hcolor, hy2]
  rfl

/-- The parts of features that do not stay make no difference to the figure. -/
theorem figure_without (spec : ChartSpec) {r : Resolution}
    {features : List Feature} (hleft : ∀ f ∈ features, r.isActive f = false)
    (palette : List String) (rows : Table) :
    (spec.without features).figure r palette rows = spec.figure r palette rows := by
  have hfacet : (if r.isActive .facet then (spec.without features).facet else none) =
      if r.isActive .facet then spec.facet else none :=
    ite_isActive_without hleft .facet spec.facet
  unfold figure
  cases herror : r.isActive .errorBar with
  | true =>
      have hkept : .errorBar ∉ features := fun hmem => by
        have hgone := hleft _ hmem
        rw [herror] at hgone
        cases hgone
      simp only [↓reduceIte]
      exact errorBarFigure_without spec hkept rows
  | false =>
      simp only [Bool.false_eq_true, ↓reduceIte]
      rw [hfacet]
      split
      · rfl
      · exact plainFigure_without spec hleft palette rows

/-- A figure reads which features stay, not what gave way to what. -/
theorem figure_of_active_eq (spec : ChartSpec) {r other : Resolution}
    (hactive : other.active = r.active) (palette : List String) (rows : Table) :
    spec.figure other palette rows = spec.figure r palette rows := by
  cases r with
  | mk active suppressed =>
      cases hactive
      rfl

/-! ## Single plots -/

/-- The series of a chart whose rows no feature splits. -/
def plainRequest (spec : ChartSpec) : SeriesRequest where
  chartType := spec.chartType
  x := spec.encoding.x
  y := spec.encoding.y
  group := none
  trendline := spec.wantsTrendline

/-- The upright plot of a chart whose rows no feature splits. -/
def plainArea (spec : ChartSpec) (rows : Table) : PlotArea :=
  .upright spec.chartType spec.encoding (spec.plainRequest.build rows)

theorem plainArea_without (spec : ChartSpec) (features : List Feature)
    (rows : Table) :
    (spec.without features).plainArea rows = spec.plainArea rows := rfl

/-- The values of an upright plot stand along y. -/
theorem isCategory_y_plainArea (spec : ChartSpec) (rows : Table) :
    (spec.plainArea rows).axes.y.isCategory = false := by
  unfold plainArea PlotArea.upright AxisPair.upright
  cases spec.chartType <;> rfl

section Means

variable {spec : ChartSpec} (hmeans : spec.chartType.showsMeans = true)
include hmeans

/-- A plain chart of means is one series over the categories. -/
theorem series_plainArea (rows : Table) :
    (spec.plainArea rows).series = [
      spec.plainRequest.series spec.chartType.mark spec.encoding.y.displayName
        (rows.meanPoints spec.encoding.x.field spec.encoding.y.field)] := by
  change (spec.plainRequest.build rows).series = _
  rw [SeriesRequest.build_eq_wholeSeries hmeans rfl,
    SeriesRequest.series_wholeSeries]
  rfl

theorem axes_plainArea (rows : Table) :
    (spec.plainArea rows).axes = {
      x := .categories spec.encoding.x.displayName
        (rows.distinctLabels spec.encoding.x.field)
      y := .values spec.encoding.y.displayName } := by
  change AxisPair.upright _ (spec.plainRequest.build rows) _ = _
  rw [SeriesRequest.build_eq_wholeSeries hmeans rfl]
  unfold AxisPair.upright
  rw [SeriesRequest.categories_wholeSeries]
  cases hchart : spec.chartType with
  | histogram | scatter =>
      rw [hchart] at hmeans
      cases hmeans
  | _ => rfl

end Means

/-- With no feature but sideways bars a figure is the plain plot. -/
theorem figure_eq_plainArea (spec : ChartSpec) {r : Resolution}
    (hnone : ∀ f, f ≠ .horizontal → r.isActive f = false)
    (palette : List String) (rows : Table) :
    spec.figure r palette rows =
      .ofArea ((spec.plainArea rows).oriented (r.isActive .horizontal)) := by
  have herror := hnone .errorBar (by decide)
  have hfacet := hnone .facet (by decide)
  have hdual := hnone .dualAxis (by decide)
  have hcolor := hnone .colorGroup (by decide)
  unfold figure plainFigure
  rw [herror, hfacet, hdual, hcolor]
  rfl

/-! ## Trendlines -/

theorem violations_trendline (spec : ChartSpec) (trendline : Option Trendline) :
    { spec with trendline }.violations = spec.violations := rfl

theorem requestedFeatures_trendline (spec : ChartSpec)
    (trendline : Option Trendline) :
    { spec with trendline }.requestedFeatures = spec.requestedFeatures := rfl

/-- A trendline makes a difference only if it is wanted. -/
theorem figure_trendline (spec : ChartSpec) (trendline : Option Trendline)
    (hwants : { spec with trendline }.wantsTrendline = spec.wantsTrendline)
    (r : Resolution) (palette : List String) (rows : Table) :
    { spec with trendline }.figure r palette rows = spec.figure r palette rows := by
  unfold figure facetFigure plainFigure
  rw [hwants]
  rfl

/-! ## Presentation -/

/-- Of the resolution a presentation reads all but the error bars, and of the
specification the chart type, the style and the annotations. -/
theorem present_congr {spec other : ChartSpec} {r r' : Resolution}
    (hchart : other.chartType = spec.chartType) (hstyle : other.style = spec.style)
    (hannotations : other.annotations = spec.annotations)
    (hactive : ∀ f, f ≠ .errorBar → r'.isActive f = r.isActive f)
    (figure : Figure) : other.present r' figure = spec.present r figure := by
  have hfacet := hactive .facet (by decide)
  have hdual := hactive .dualAxis (by decide)
  have hcolor := hactive .colorGroup (by decide)
  have hhorizontal := hactive .horizontal (by decide)
  unfold present Legend.of Tooltip.of
  rw [hchart, hstyle, hannotations, hfacet, hdual, hcolor, hhorizontal]

/-- A series with the labels that the style asks for, and all its fonts. -/
def finish (spec : ChartSpec) (horizontal : Bool) (s : Series) : Series :=
  (if spec.style.theme.showDataLabels then s.withLabels horizontal else s).fillFonts
    spec.style.theme

theorem finish_bindAxes (spec : ChartSpec) (horizontal : Bool) (index : Nat)
    (s : Series) :
    spec.finish horizontal (s.bindAxes index) =
      (spec.finish horizontal s).bindAxes index := by
  unfold finish
  split <;> rfl

theorem xAxis_present (spec : ChartSpec) (r : Resolution) (figure : Figure) :
    (spec.present r figure).xAxis = figure.xAxis.map (Axis.fillFonts spec.style.theme) :=
  rfl

theorem yAxis_present (spec : ChartSpec) (r : Resolution) (figure : Figure) :
    (spec.present r figure).yAxis = figure.yAxis.map (Axis.fillFonts spec.style.theme) :=
  rfl

theorem series_present (spec : ChartSpec) (r : Resolution) (figure : Figure) :
    (spec.present r figure).series =
      figure.series.map (spec.finish (r.isActive .horizontal)) := by
  unfold present RenderConfig.withTheme finish
  cases hlabels : spec.style.theme.showDataLabels with
  | true => simp only [hlabels, ↓reduceIte, List.map_map, Function.comp_def]
  | false => simp only [hlabels, Bool.false_eq_true, ↓reduceIte]

/-- Finishing a series settles its labels and nothing else. -/
theorem finish_eq (spec : ChartSpec) (horizontal : Bool) (s : Series) :
    spec.finish horizontal s = { s with label := (spec.finish horizontal s).label } := by
  unfold finish
  split <;> rfl

/-- Where no legend is shown, one more series in a figure is one more series in
the configuration. -/
theorem present_push (spec : ChartSpec) {r : Resolution}
    (hdual : r.isActive .dualAxis = false) (hcolor : r.isActive .colorGroup = false)
    (figure : Figure) (s : Series) :
    spec.present r (figure.push s) =
      { spec.present r figure with
        series := (spec.present r figure).series ++
          [spec.finish (r.isActive .horizontal) s] } := by
  have hlegend (series other : List Series) : Legend.of r series = Legend.of r other := by
    unfold Legend.of
    simp only [hdual, hcolor, Bool.or_self, Bool.and_false, Bool.false_eq_true,
      ↓reduceIte]
  have hseries := series_present spec r (figure.push s)
  rw [Figure.push, List.map_append, ← series_present] at hseries
  unfold Figure.push
  unfold present RenderConfig.withTheme at hseries ⊢
  simp only [hlegend _ figure.series] at hseries ⊢
  rw [hseries]
  rfl

theorem config_eq (spec : ChartSpec) (rows : Table) :
    spec.config rows =
      spec.present spec.resolution
        (spec.figure spec.resolution spec.style.theme.palette rows) := rfl

/-- Where the parts left out leave at most sideways bars, the configuration shows
the plain plot. -/
theorem config_without_eq_plainArea (spec : ChartSpec) (features : List Feature)
    (hnone : ∀ f, f ≠ .horizontal →
      (spec.without features).resolution.isActive f = false) (rows : Table) :
    (spec.without features).config rows =
      spec.present (spec.without features).resolution
        (.ofArea ((spec.plainArea rows).oriented
          ((spec.without features).resolution.isActive .horizontal))) := by
  rw [config_eq, figure_eq_plainArea _ hnone, plainArea_without]
  exact present_congr rfl rfl rfl (fun _ _ => rfl) _

end ChartSpec

end ChartCompiler
