import ChartCompiler.Proofs.SmallMultiples

/-!
# Sideways bars mirror upright ones

Bars are drawn upright and then turned, cell by cell if the chart has small
multiples. So sideways bars are the mirror image of upright ones: the axes and
the dimensions of every series change places, labels stand to the right of the
bars and no longer above them, and everything else stays. `mirror` is that image.
-/

namespace ChartCompiler

/-! ## Mirror images -/

attribute [ext] RenderConfig

def Label.toRight (l : Label) : Label :=
  { l with position := .right }

/-- The series with its dimensions on the other axis each and its labels to the
right. -/
def Series.mirror (s : Series) : Series :=
  { s with
    encode := ⟨s.encode.y, s.encode.x⟩
    label := s.label.map Label.toRight }

/-- The configuration with its axes exchanged and every series mirrored. -/
def RenderConfig.mirror (config : RenderConfig) : RenderConfig :=
  { config with
    xAxis := config.yAxis
    yAxis := config.xAxis
    series := config.series.map Series.mirror }

/-- The figure with its axes exchanged, and the dimensions of every series with
them. -/
def Figure.turn (figure : Figure) : Figure :=
  { figure with
    xAxis := figure.yAxis
    yAxis := figure.xAxis
    series := figure.series.map Series.swapEncode }

/-- It makes no difference whether an area is turned before or after it is placed. -/
theorem PlotArea.bind_turn (index : Nat) (area : PlotArea) :
    area.turn.bind index = (area.bind index).turn := by
  unfold turn bind
  rw [List.map_map, List.map_map]
  rfl

/-- Sideways small multiples are those upright, each turned in its cell. -/
theorem Figure.ofFacets_build_turn (chartType : ChartType) (encoding : Encoding)
    (facet : Facet) (rows : Table) (trendline : Bool) :
    ofFacets (.build chartType encoding facet rows true trendline) =
      (ofFacets (.build chartType encoding facet rows false trendline)).turn := by
  have hareas : (FacetChart.build chartType encoding facet rows true trendline).areas =
      (FacetChart.build chartType encoding facet rows false trendline).areas.map
        PlotArea.turn := by
    simp only [FacetChart.build, List.map_map]
    apply List.map_congr_left
    intro cell _
    exact PlotArea.bind_turn _ _
  unfold ofFacets turn FacetChart.series
  rw [hareas, List.map_map, List.map_map, List.flatMap_map, List.map_flatMap]
  rfl

/-! ## Figures of bars -/

namespace ChartSpec

/-- A series of means is built without labels. -/
theorem label_build {request : SeriesRequest}
    (hmeans : request.chartType.showsMeans = true) (rows : Table) :
    ∀ s ∈ (request.build rows).series, s.label = none := by
  rw [SeriesRequest.build_eq_categorySeries hmeans, SeriesRequest.categorySeries]
  intro s hs
  split at hs
  · rw [SeriesRequest.series_wholeSeries] at hs
    rw [List.mem_singleton.mp hs]
    rfl
  · rw [SeriesRequest.series_groupedSeries] at hs
    obtain ⟨key, -, rfl⟩ := List.mem_map.mp hs
    rfl

/-- The series of small multiples have no labels either. -/
theorem label_facetFigure {spec : ChartSpec} (hmeans : spec.chartType.showsMeans = true)
    (facet : Facet) (rows : Table) :
    ∀ s ∈ (spec.facetFigure facet false rows).series, s.label = none := by
  intro s hs
  change s ∈ FacetChart.series _ at hs
  rw [FacetChart.series, FacetChart.areas_build] at hs
  obtain ⟨area, harea, hs⟩ := List.mem_flatMap.mp hs
  obtain ⟨index, hindex, rfl⟩ := List.mem_mapIdx.mp harea
  rw [series_cellArea] at hs
  obtain ⟨free, hfree, rfl⟩ := List.mem_map.mp hs
  exact @label_build spec.plainRequest hmeans _ free hfree

/-- A series without labels of its own is finished into the mirror image. -/
theorem finish_swapEncode (spec : ChartSpec) {s : Series} (hbare : s.label = none) :
    spec.finish true s.swapEncode = (spec.finish false s).mirror := by
  unfold finish
  split
  · rfl
  · unfold Series.mirror Series.fillFonts
    rw [show s.swapEncode.label = none from hbare, hbare]
    rfl

/-- Of the series a legend reads the names, and labels do not change those. -/
theorem legend_present (spec : ChartSpec) (r : Resolution) (figure : Figure) :
    (spec.present r figure).legend =
      { Legend.of r figure.series with
        textStyle := (Legend.of r figure.series).textStyle.fill spec.style.theme } := by
  have hnames : (if spec.style.theme.showDataLabels then
      figure.series.map (Series.withLabels (r.isActive .horizontal))
      else figure.series).map Series.name = figure.series.map Series.name := by
    split
    · exact List.map_map
    · rfl
  unfold present RenderConfig.withTheme Legend.of
  dsimp only
  rw [hnames]

section Turned

variable {spec : ChartSpec} {r sideways : Resolution}
  (herror : r.isActive .errorBar = false) (hdual : r.isActive .dualAxis = false)
  (hupright : r.isActive .horizontal = false)
include herror hdual hupright

/-- Whatever splits the rows of upright bars, their series are built without
labels. -/
theorem label_figure (hmeans : spec.chartType.showsMeans = true)
    (palette : List String) (rows : Table) :
    ∀ s ∈ (spec.figure r palette rows).series, s.label = none := by
  unfold figure plainFigure
  rw [herror, hdual, hupright]
  cases (if r.isActive .facet then spec.facet else none) with
  | some facet => exact label_facetFigure hmeans facet rows
  | none => exact label_build hmeans rows

variable (hsideways : sideways.isActive .horizontal = true)
  (hothers : ∀ f, f ≠ .horizontal → sideways.isActive f = r.isActive f)
include hsideways hothers

theorem figure_turn (palette : List String) (rows : Table) :
    spec.figure sideways palette rows = (spec.figure r palette rows).turn := by
  unfold figure plainFigure
  rw [hothers .errorBar (by decide), hothers .facet (by decide),
    hothers .dualAxis (by decide), hothers .colorGroup (by decide), herror, hdual,
    hupright, hsideways]
  cases (if r.isActive .facet then spec.facet else none) with
  | some facet => exact Figure.ofFacets_build_turn _ _ facet rows _
  | none => rfl

omit herror hdual in
theorem present_turn {figure : Figure} (hbare : ∀ s ∈ figure.series, s.label = none) :
    spec.present sideways figure.turn = (spec.present r figure).mirror := by
  have hseries : (spec.present sideways figure.turn).series =
      ((spec.present r figure).mirror).series := by
    unfold RenderConfig.mirror
    rw [series_present, series_present, hsideways, hupright, Figure.turn,
      List.map_map, List.map_map]
    apply List.map_congr_left
    intro s hs
    exact finish_swapEncode spec (hbare s hs)
  have hlegend : (spec.present sideways figure.turn).legend =
      (spec.present r figure).legend := by
    have hnames : (figure.series.map Series.swapEncode).map Series.name =
        figure.series.map Series.name := List.map_map
    rw [legend_present, legend_present, Figure.turn]
    unfold Legend.of
    rw [hnames, hothers .facet (by decide), hothers .colorGroup (by decide),
      hothers .dualAxis (by decide)]
  have htooltip : (spec.present sideways figure.turn).tooltip =
      (spec.present r figure).tooltip := by
    unfold present RenderConfig.withTheme Tooltip.of
    dsimp only
    rw [hothers .dualAxis (by decide)]
  exact RenderConfig.ext rfl rfl rfl hseries rfl hlegend htooltip rfl rfl

end Turned

/-! ## Specifications of bars -/

def facing (spec : ChartSpec) (orientation : Option Orientation) : ChartSpec :=
  { spec with orientation }

theorem violations_facing (spec : ChartSpec) (orientation : Option Orientation) :
    (spec.facing orientation).violations = spec.violations := rfl

/-- The direction is read through the resolution only. -/
theorem config_facing (spec : ChartSpec) (orientation : Option Orientation)
    (rows : Table) :
    (spec.facing orientation).config rows =
      spec.present (spec.facing orientation).resolution
        (spec.figure (spec.facing orientation).resolution spec.style.theme.palette
          rows) := by
  have hfigure (r : Resolution) (palette : List String) :
      (spec.facing orientation).figure r palette rows = spec.figure r palette rows := rfl
  rw [config_eq, hfigure]
  exact present_congr rfl rfl rfl (fun _ _ => rfl) _

/-- Of the features the direction asks for sideways bars only. -/
theorem asks_facing (spec : ChartSpec) (orientation : Option Orientation) {f : Feature}
    (hother : f ≠ .horizontal) : (spec.facing orientation).asks f = spec.asks f := by
  cases f with
  | horizontal => exact absurd rfl hother
  | _ => rfl

/-- The bars of every chart type that can turn them stand for means. -/
theorem showsMeans_of_horizontal {chartType : ChartType}
    (hbars : chartType.capabilities.horizontal = true) :
    chartType.showsMeans = true := by
  cases chartType with
  | bar | groupedBar | stackedBar => rfl
  | _ => cases hbars

section Bars

variable {spec : ChartSpec} (hbars : spec.chartType.capabilities.horizontal = true)
  (herror : spec.errorBar = none) (hy2 : spec.encoding.y2 = none)
  (orientation : Option Orientation)
include hbars herror

theorem asks_errorBar_facing : (spec.facing orientation).asks .errorBar = false := by
  rw [asks_facing spec orientation (by decide)]
  unfold asks requests
  rw [herror]
  cases hchart : spec.chartType with
  | errorBar => rw [hchart] at hbars; cases hbars
  | _ => rfl

theorem isActive_errorBar_facing :
    (spec.facing orientation).resolution.isActive .errorBar = false :=
  isActive_eq_false_of_asks (asks_errorBar_facing hbars herror orientation)

theorem isActive_horizontal_facing :
    (spec.facing orientation).resolution.isActive .horizontal =
      (spec.facing orientation).isHorizontal := by
  have hasks : (spec.facing orientation).asks .horizontal =
      (spec.facing orientation).isHorizontal := by
    change ((spec.facing orientation).isHorizontal &&
      spec.chartType.capabilities.horizontal) = _
    rw [hbars, Bool.and_true]
  rw [isActive_resolution, Feature.stays, asks_errorBar_facing hbars herror, hasks,
    Bool.not_false, Bool.and_true]

include hy2
omit hbars herror

theorem asks_dualAxis_facing : (spec.facing orientation).asks .dualAxis = false := by
  rw [asks_facing spec orientation (by decide)]
  unfold asks requests
  rw [hy2]
  rfl

include hbars herror

/-- Without a secondary axis nothing else gives way to sideways bars. -/
theorem isActive_facing {f : Feature} (hother : f ≠ .horizontal) :
    (spec.facing orientation).resolution.isActive f =
      (spec.facing none).resolution.isActive f := by
  have herrorBar := asks_errorBar_facing hbars herror
  have hdual := asks_dualAxis_facing hy2
  have hfacet (o : Option Orientation) := asks_facing spec o (f := .facet) (by decide)
  have hcolor (o : Option Orientation) :=
    asks_facing spec o (f := .colorGroup) (by decide)
  rw [isActive_resolution, isActive_resolution]
  cases f with
  | horizontal => exact absurd rfl hother
  | _ => simp only [Feature.stays, herrorBar, hdual, hfacet, hcolor, Bool.false_and]

/-- The configuration of sideways bars is the mirror image of the upright one. -/
theorem config_sideways (rows : Table) :
    (spec.facing (some .horizontal)).config rows =
      ((spec.facing none).config rows).mirror := by
  have hmeans := showsMeans_of_horizontal hbars
  have hnoError := isActive_errorBar_facing hbars herror none
  have hnoDual := isActive_eq_false_of_asks (asks_dualAxis_facing hy2 none)
  have hupright := isActive_horizontal_facing hbars herror none
  have hsideways := isActive_horizontal_facing hbars herror (some .horizontal)
  have hothers : ∀ f, f ≠ .horizontal →
      (spec.facing (some .horizontal)).resolution.isActive f =
        (spec.facing none).resolution.isActive f := fun f hother =>
    isActive_facing hbars herror hy2 (some .horizontal) hother
  have hbare : ∀ s ∈ (spec.figure (spec.facing none).resolution
      spec.style.theme.palette rows).series, s.label = none :=
    label_figure hnoError hnoDual hupright hmeans _ rows
  rw [config_facing, config_facing,
    figure_turn hnoError hnoDual hupright hsideways hothers]
  exact present_turn hupright hsideways hothers hbare

/-- The labels of upright bars stand above them. -/
theorem position_of_label_upright (rows : Table) :
    ∀ s ∈ ((spec.facing none).config rows).series, ∀ label, s.label = some label →
      label.position = .top := by
  have hmeans := showsMeans_of_horizontal hbars
  have hnoError := isActive_errorBar_facing hbars herror none
  have hnoDual := isActive_eq_false_of_asks (asks_dualAxis_facing hy2 none)
  have hupright := isActive_horizontal_facing hbars herror none
  intro s hs label hlabel
  rw [config_facing, series_present, hupright] at hs
  obtain ⟨bare, hbuilt, rfl⟩ := List.mem_map.mp hs
  have hbare := label_figure hnoError hnoDual hupright hmeans _ rows bare hbuilt
  unfold finish at hlabel
  split at hlabel
  · obtain rfl := Option.some.inj hlabel
    rfl
  · rw [Series.fillFonts, hbare] at hlabel
    cases hlabel

end Bars

/-- For every valid chart of bars, grouped bars or stacked bars without error bars
and without a second field, and every table: the sideways chart is the mirror
image of the upright one, in which all labels stand above the bars. -/
theorem sideways_mirrors_upright {spec : ChartSpec} (hvalid : spec.violations = [])
    (hbars : spec.chartType = .bar ∨ spec.chartType = .groupedBar ∨
      spec.chartType = .stackedBar)
    (herror : spec.errorBar = none) (hy2 : spec.encoding.y2 = none) (rows : Table) :
    ∃ upright, compile (spec.facing none) rows = .ok upright ∧
      (∀ s ∈ upright.series, ∀ label, s.label = some label → label.position = .top) ∧
      compile (spec.facing (some .horizontal)) rows = .ok upright.mirror := by
  have hcapable : spec.chartType.capabilities.horizontal = true := by
    rcases hbars with hchart | hchart | hchart <;> rw [hchart] <;> rfl
  have hfacing (orientation : Option Orientation) :
      (spec.facing orientation).violations = [] :=
    (violations_facing spec orientation).trans hvalid
  refine ⟨(spec.facing none).config rows, compile_eq_ok (hfacing none) rows,
    position_of_label_upright hcapable herror hy2 rows, ?_⟩
  rw [← config_sideways hcapable herror hy2]
  exact compile_eq_ok (hfacing (some .horizontal)) rows

/-- The crowded chart without error bars and profits, which has labels and small
multiples with shared axes. Each of its cells draws one series. -/
theorem sideways_mirrors_upright_crowded :
    let bars := crowded.without [.errorBar, .dualAxis]
    bars.violations = [] ∧ bars.chartType = .bar ∧ bars.errorBar = none ∧
      bars.encoding.y2 = none ∧ ∃ upright,
        compile (bars.facing none) .sales = .ok upright ∧
        (∀ s ∈ upright.series, ∀ label, s.label = some label → label.position = .top) ∧
        compile (bars.facing (some .horizontal)) .sales = .ok upright.mirror ∧
        upright.series.map Series.encode =
          List.replicate 3 ⟨.one "region", .one "sales"⟩ ∧
        upright.mirror.series.map Series.encode =
          List.replicate 3 ⟨.one "sales", .one "region"⟩ := by
  intro bars
  have hvalid : bars.violations = [] :=
    violations_without [.errorBar, .dualAxis] violations_crowded
  obtain ⟨upright, hcompile, htop, hmirror⟩ :=
    sideways_mirrors_upright hvalid (Or.inl rfl) rfl rfl .sales
  have hencodes : (compile (bars.facing none) .sales).toOption.map
      (fun config => config.series.map Series.encode) =
        some (List.replicate 3 ⟨.one "region", .one "sales"⟩) := by
    decide +kernel
  have hturned : (compile (bars.facing (some .horizontal)) .sales).toOption.map
      (fun config => config.series.map Series.encode) =
        some (List.replicate 3 ⟨.one "sales", .one "region"⟩) := by
    decide +kernel
  rw [hcompile] at hencodes
  rw [hmirror] at hturned
  exact ⟨hvalid, rfl, rfl, rfl, upright, hcompile, htop, hmirror,
    Option.some.inj hencodes, Option.some.inj hturned⟩

end ChartSpec

end ChartCompiler
