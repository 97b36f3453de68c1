import ChartCompiler.Proofs.PlotAreas
import ChartCompiler.Proofs.SecondaryAxis

/-!
# Configurations are made of plot areas

A configuration shows one plot area, or two over one x axis, or a row of areas in
cells. Every figure is one of the three, and all its areas are sound. So whatever
is to be said of the series and axes of a configuration may be said of one area.
-/

namespace ChartCompiler

namespace RenderConfig

/-- The configuration shows one sound area, outside of grids. -/
structure ShowsArea (chartType : ChartType) (config : RenderConfig) (area : PlotArea) :
    Prop where
  sound : area.IsSound chartType
  place : area.IsAt none none none
  xAxis : config.xAxis = .one area.axes.x
  yAxis : config.yAxis = .one area.axes.y
  grid : config.grid = none
  series : config.series = area.series

/-- The configuration shows an upright area and over its x axis another one, whose
line is drawn against a y axis of its own. -/
structure ShowsOverlay (chartType : ChartType) (config : RenderConfig)
    (area overlay : PlotArea) (line : Series) : Prop where
  sound : area.IsSound chartType
  place : area.IsAt none none none
  upright : area.axes.y.isCategory = false
  overlaySound : overlay.IsSound chartType
  overlayPlace : overlay.IsAt none none (some 1)
  overlaySeries : overlay.series = [line]
  common : overlay.axes.x = area.axes.x
  xAxis : config.xAxis = .one area.axes.x
  yAxis : config.yAxis = .many [area.axes.y, overlay.axes.y]
  grid : config.grid = none
  series : config.series = area.series ++ overlay.series

/-- The configuration shows sound areas, each in a grid of its own. -/
structure ShowsCells (chartType : ChartType) (config : RenderConfig)
    (areas : List PlotArea) (grids : List Grid) : Prop where
  sound : ∀ area ∈ areas, area.IsSound chartType
  place : ∀ i (area : PlotArea), areas[i]? = some area →
    area.IsAt (some i) (some i) (some i)
  xAxis : config.xAxis = .many (areas.map fun area => area.axes.x)
  yAxis : config.yAxis = .many (areas.map fun area => area.axes.y)
  grid : config.grid = some grids
  count : grids.length = areas.length
  series : config.series = areas.flatMap PlotArea.series

/-- The configuration is made of sound areas in one of these ways, and it tells
whether there is a secondary axis. -/
inductive ComposedOf (chartType : ChartType) (config : RenderConfig) : Bool → Prop where
  | single {area : PlotArea} (shows : config.ShowsArea chartType area) :
      ComposedOf chartType config false
  | dual {area overlay : PlotArea} {line : Series}
      (shows : config.ShowsOverlay chartType area overlay line) :
      ComposedOf chartType config true
  | cells {areas : List PlotArea} {grids : List Grid}
      (shows : config.ShowsCells chartType areas grids) :
      ComposedOf chartType config false

end RenderConfig

/-! ## Series and axes of one area -/

namespace RenderConfig

/-- The x axis that a series is drawn along, the first one if it names none. -/
def xAxisOf (config : RenderConfig) (s : Series) : Option Axis :=
  config.xAxis.toList[s.xAxisIndex.getD 0]?

/-- The y axis that a series is drawn along, the first one if it names none. -/
def yAxisOf (config : RenderConfig) (s : Series) : Option Axis :=
  config.yAxis.toList[s.yAxisIndex.getD 0]?

def axes (config : RenderConfig) : List Axis :=
  config.xAxis.toList ++ config.yAxis.toList

namespace ComposedOf

variable {config : RenderConfig} {chartType : ChartType} {dual : Bool}
  (h : config.ComposedOf chartType dual)
include h

/-- Every series stands in a sound area, between the axes that it names. -/
theorem exists_area {s : Series} (hs : s ∈ config.series) :
    ∃ area : PlotArea, area.IsSound chartType ∧ s ∈ area.series ∧
      config.xAxisOf s = some area.axes.x ∧ config.yAxisOf s = some area.axes.y := by
  unfold xAxisOf yAxisOf
  cases h with
  | @single area hshows =>
      rw [hshows.series] at hs
      obtain ⟨hx, hy⟩ := hshows.place.series s hs
      rw [hx, hy, hshows.xAxis, hshows.yAxis]
      exact ⟨area, hshows.sound, hs, rfl, rfl⟩
  | @dual area overlay _ hshows =>
      rw [hshows.series] at hs
      rw [hshows.xAxis, hshows.yAxis]
      rcases List.mem_append.mp hs with hs | hs
      · obtain ⟨hx, hy⟩ := hshows.place.series s hs
        rw [hx, hy]
        exact ⟨area, hshows.sound, hs, rfl, rfl⟩
      · obtain ⟨hx, hy⟩ := hshows.overlayPlace.series s hs
        rw [hx, hy, ← hshows.common]
        exact ⟨overlay, hshows.overlaySound, hs, rfl, rfl⟩
  | @cells areas _ hshows =>
      rw [hshows.series] at hs
      obtain ⟨area, harea, hs⟩ := List.mem_flatMap.mp hs
      obtain ⟨i, hi⟩ := List.mem_iff_getElem?.mp harea
      obtain ⟨hx, hy⟩ := (hshows.place i area hi).series s hs
      rw [hx, hy, hshows.xAxis, hshows.yAxis]
      refine ⟨area, hshows.sound area harea, hs, ?_, ?_⟩
      · exact List.getElem?_map.trans (congrArg (Option.map _) hi)
      · exact List.getElem?_map.trans (congrArg (Option.map _) hi)

/-- Every axis is in order. -/
theorem isSound_of_mem_axes {axis : Axis} (haxis : axis ∈ config.axes) : axis.IsSound := by
  unfold axes at haxis
  cases h with
  | single hshows =>
      rw [hshows.xAxis, hshows.yAxis] at haxis
      rcases List.mem_append.mp haxis with hx | hy
      · exact List.mem_singleton.mp hx ▸ hshows.sound.x
      · exact List.mem_singleton.mp hy ▸ hshows.sound.y
  | dual hshows =>
      rw [hshows.xAxis, hshows.yAxis] at haxis
      rcases List.mem_append.mp haxis with hx | hy
      · exact List.mem_singleton.mp hx ▸ hshows.sound.x
      · rcases List.mem_cons.mp hy with rfl | hy
        · exact hshows.sound.y
        · exact List.mem_singleton.mp hy ▸ hshows.overlaySound.y
  | cells hshows =>
      rw [hshows.xAxis, hshows.yAxis] at haxis
      rcases List.mem_append.mp haxis with hx | hy
      · obtain ⟨area, harea, rfl⟩ := List.mem_map.mp hx
        exact (hshows.sound area harea).x
      · obtain ⟨area, harea, rfl⟩ := List.mem_map.mp hy
        exact (hshows.sound area harea).y

end ComposedOf

end RenderConfig

/-! ## The figures -/

namespace ChartSpec

/-- A chart with one plot shows its area with fonts and labels. -/
theorem composedOf_ofArea (spec : ChartSpec) (r : Resolution) {area : PlotArea}
    (hsound : area.IsSound spec.chartType) (hplace : area.IsAt none none none) :
    (spec.present r (.ofArea area)).ComposedOf spec.chartType false :=
  .single {
    sound := isSound_dress spec (r.isActive .horizontal) hsound
    place := isAt_dress spec (r.isActive .horizontal) hplace
    xAxis := xAxis_present spec r _
    yAxis := yAxis_present spec r _
    grid := rfl
    series := series_present spec r _ }

/-- Points have no error bars. -/
theorem ne_scatter_of_errorBar {spec : ChartSpec}
    (hactive : spec.resolution.isActive .errorBar = true) : spec.chartType ≠ .scatter := by
  rw [isActive_resolution] at hactive
  obtain ⟨-, hsupports⟩ := Bool.and_eq_true_iff.mp (Feature.asked_of_stays hactive)
  intro hchart
  rw [hchart] at hsupports
  cases hsupports

theorem composedOf_errorBarFigure (spec : ChartSpec) (r : Resolution)
    (hchart : spec.chartType ≠ .scatter) (rows : Table) :
    (spec.present r (spec.errorBarFigure rows)).ComposedOf spec.chartType false := by
  have hset := ErrorBarChart.isSound_seriesSet hchart spec.encoding
    spec.errorBarOrUsual rows
  rw [errorBarFigure, ErrorBarChart.area_build]
  exact composedOf_ofArea spec r (PlotArea.isSound_upright hset .errorBar _)
    (PlotArea.isAt_upright hset .errorBar _)

/-- A single plot is upright or turned, whatever splits its rows. -/
theorem composedOf_plainFigure (spec : ChartSpec) {r : Resolution}
    (hdual : r.isActive .dualAxis = false) (palette : List String) (rows : Table) :
    (spec.present r (spec.plainFigure r palette rows)).ComposedOf spec.chartType
      false := by
  unfold plainFigure
  simp only [hdual, Bool.false_eq_true, ↓reduceIte]
  have hset := fun group => SeriesRequest.isSound_build
    ⟨spec.chartType, spec.encoding.x, spec.encoding.y, group, spec.wantsTrendline⟩ rows
  exact composedOf_ofArea spec r ((PlotArea.isSound_upright (hset _) _ _).oriented _)
    ((PlotArea.isAt_upright (hset _) _ _).oriented _)

theorem isSound_cellArea (spec : ChartSpec) (shared : Option (Float × Float))
    (horizontal : Bool) (index : Nat) (rows : Table) :
    (FacetChart.cellArea spec shared horizontal index rows).IsSound spec.chartType := by
  have hupright := PlotArea.isSound_upright
    (SeriesRequest.isSound_build spec.plainRequest rows) spec.chartType spec.encoding
  have hbounded := hupright.shareBounds (spec.isCategory_y_plainArea rows)
    spec.chartType shared
  exact (hbounded.oriented horizontal).bind index

/-- Small multiples have an area for each part, each in a grid of its own. -/
theorem composedOf_ofFacets (spec : ChartSpec) (r : Resolution) (facet : Facet)
    (rows : Table) :
    (spec.present r (.ofFacets (FacetChart.build spec.chartType spec.encoding facet rows
      (r.isActive .horizontal) spec.wantsTrendline))).ComposedOf spec.chartType false := by
  have hareas := FacetChart.areas_build spec facet (r.isActive .horizontal) rows
  have hgrids := FacetChart.length_grids_build spec.chartType spec.encoding facet rows
    (r.isActive .horizontal) spec.wantsTrendline
  generalize FacetChart.build spec.chartType spec.encoding facet rows
    (r.isActive .horizontal) spec.wantsTrendline = chart at hareas hgrids
  have hsound : ∀ area ∈ chart.areas, area.IsSound spec.chartType := by
    rw [hareas]
    intro area harea
    obtain ⟨i, hi, rfl⟩ := List.mem_mapIdx.mp harea
    exact isSound_cellArea spec _ _ i _
  have hplace : ∀ i (area : PlotArea), chart.areas[i]? = some area →
      area.IsAt (some i) (some i) (some i) := by
    rw [hareas]
    intro i area harea
    rw [List.getElem?_mapIdx] at harea
    obtain ⟨part, -, rfl⟩ := Option.map_eq_some_iff.mp harea
    exact PlotArea.isAt_bind i _
  suffices hshows : (spec.present r (.ofFacets chart)).ShowsCells spec.chartType
      (chart.areas.map (spec.dress (r.isActive .horizontal))) chart.grids from .cells hshows
  refine ⟨?_, ?_, ?_, ?_, rfl, ?_, ?_⟩
  · intro area harea
    obtain ⟨bare, hbare, rfl⟩ := List.mem_map.mp harea
    exact isSound_dress spec _ (hsound bare hbare)
  · intro i area harea
    rw [List.getElem?_map] at harea
    obtain ⟨bare, hbare, rfl⟩ := Option.map_eq_some_iff.mp harea
    exact isAt_dress spec _ (hplace i bare hbare)
  · rw [xAxis_present, Figure.ofFacets, OneOrMany.map, List.map_map, List.map_map]
    rfl
  · rw [yAxis_present, Figure.ofFacets, OneOrMany.map, List.map_map, List.map_map]
    rfl
  · rw [List.length_map, hareas, List.length_mapIdx, hgrids]
  · rw [series_present, Figure.ofFacets, FacetChart.series, List.map_flatMap,
      List.flatMap_map]
    rfl

/-- The second area of a chart with a secondary axis: its line between the x axis of
the chart and the axis on the right. -/
def secondArea (spec : ChartSpec) (y2 : FieldDef) (rows : Table) : PlotArea :=
  let line := (DualAxis.build (spec.plainArea rows).axes.y spec.encoding.x y2
    (rows.distinctLabels spec.encoding.x.field) rows spec.style.theme.palette).series
  (PlotArea.upright .line { spec.encoding with y := y2 }
    (DualAxis.seriesSet spec.encoding.x y2 (rows.distinctLabels spec.encoding.x.field)
      rows)).mapParts id (fun a => { a with position := some .right }) fun s =>
        { s with
          yAxisIndex := some 1, itemColor := line.itemColor, lineStyle := line.lineStyle }

theorem series_secondArea (spec : ChartSpec) (y2 : FieldDef) (rows : Table) :
    (spec.secondArea y2 rows).series =
      [(DualAxis.build (spec.plainArea rows).axes.y spec.encoding.x y2
        (rows.distinctLabels spec.encoding.x.field) rows
        spec.style.theme.palette).series] := rfl

theorem isAt_secondArea (spec : ChartSpec) (y2 : FieldDef) (rows : Table) :
    (spec.secondArea y2 rows).IsAt none none (some 1) := by
  refine ⟨rfl, rfl, ?_⟩
  intro s hs
  rw [series_secondArea] at hs
  rw [List.mem_singleton.mp hs]
  exact ⟨rfl, rfl⟩

theorem isSound_secondArea (spec : ChartSpec) {chartType : ChartType}
    (hmeans : chartType.showsMeans = true) (y2 : FieldDef) (rows : Table) :
    (spec.secondArea y2 rows).IsSound chartType := by
  unfold secondArea
  apply (PlotArea.isSound_upright
    (DualAxis.isSound_seriesSet hmeans _ y2 _ rows) _ _).mapParts
  · exact fun _ => ⟨rfl, rfl, rfl, rfl, rfl⟩
  · exact fun _ => ⟨rfl, rfl, rfl, rfl, rfl⟩
  · exact fun _ => ⟨rfl, rfl, rfl, rfl⟩

/-- The plain area with its value axis on the left. -/
def firstArea (spec : ChartSpec) (rows : Table) : PlotArea :=
  (spec.plainArea rows).mapParts id (fun a => { a with position := some .left }) id

theorem isSound_firstArea (spec : ChartSpec) (rows : Table) :
    (spec.firstArea rows).IsSound spec.chartType := by
  apply (PlotArea.isSound_upright
    (SeriesRequest.isSound_build spec.plainRequest rows) _ _).mapParts
  · exact fun _ => ⟨rfl, rfl, rfl, rfl, rfl⟩
  · exact fun _ => ⟨rfl, rfl, rfl, rfl, rfl⟩
  · exact fun _ => ⟨rfl, rfl, rfl, rfl⟩

theorem isAt_firstArea (spec : ChartSpec) (rows : Table) :
    (spec.firstArea rows).IsAt none none none := by
  unfold firstArea
  apply (PlotArea.isAt_upright
    (SeriesRequest.isSound_build spec.plainRequest rows) _ _).mapParts
  · exact fun _ => rfl
  · exact fun _ => rfl
  · exact fun _ => ⟨rfl, rfl⟩

section DualAxis

variable {spec : ChartSpec} (hactive : spec.resolution.isActive .dualAxis = true)
include hactive

theorem exists_y2 : ∃ y2, spec.encoding.y2 = some y2 := by
  obtain ⟨hasked, -⟩ := asks_of_isActive_dualAxis hactive
  exact Option.isSome_iff_exists.mp (Bool.and_eq_true_iff.mp hasked).1

/-- A chart with a secondary axis lays a second area over the plain one. -/
theorem composedOf_dualAxis (rows : Table) :
    (spec.config rows).ComposedOf spec.chartType true := by
  obtain ⟨y2, hy2⟩ := exists_y2 hactive
  have hmeans := showsMeans_of_dualAxis hactive
  let dress := spec.dress (spec.resolution.isActive .horizontal)
  rw [config_dualAxis hactive hy2]
  have hshows : (spec.present spec.resolution (.withDualAxis (spec.plainArea rows)
      (DualAxis.build (spec.plainArea rows).axes.y spec.encoding.x y2
        (rows.distinctLabels spec.encoding.x.field) rows
        spec.style.theme.palette))).ShowsOverlay spec.chartType
      (dress (spec.firstArea rows)) (dress (spec.secondArea y2 rows)) _ := {
    sound := isSound_dress spec _ (isSound_firstArea spec rows)
    place := isAt_dress spec _ (isAt_firstArea spec rows)
    upright := spec.isCategory_y_plainArea rows
    overlaySound := isSound_dress spec _ (isSound_secondArea spec hmeans y2 rows)
    overlayPlace := isAt_dress spec _ (isAt_secondArea spec y2 rows)
    overlaySeries := congrArg (List.map _) (series_secondArea spec y2 rows)
    common := by
      change (spec.secondArea y2 rows).axes.x.fillFonts _ =
        (spec.plainArea rows).axes.x.fillFonts _
      rw [axes_plainArea hmeans]
      rfl
    xAxis := xAxis_present ..
    yAxis := yAxis_present ..
    grid := rfl
    series := by
      rw [series_present, Figure.withDualAxis, List.map_append]
      unfold dress ChartSpec.dress firstArea PlotArea.mapParts
      rw [List.map_id]
      rfl }
  exact .dual hshows

end DualAxis

/-- Whichever features stay, the configuration is made of sound plot areas. -/
theorem composedOf_config (spec : ChartSpec) (rows : Table) :
    (spec.config rows).ComposedOf spec.chartType (spec.resolution.isActive .dualAxis) := by
  cases hdual : spec.resolution.isActive .dualAxis with
  | true => exact composedOf_dualAxis hdual rows
  | false =>
      rw [config_eq, figure]
      cases herror : spec.resolution.isActive .errorBar with
      | true =>
          exact composedOf_errorBarFigure spec _ (ne_scatter_of_errorBar herror) rows
      | false =>
          simp only [Bool.false_eq_true, ↓reduceIte]
          split
          · exact composedOf_ofFacets spec _ _ rows
          · exact composedOf_plainFigure spec hdual _ rows

end ChartSpec

end ChartCompiler
