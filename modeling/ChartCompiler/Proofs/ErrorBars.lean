import ChartCompiler.Proofs.Presentation

/-!
# Error bars over the plain chart

Charts with error bars build their axes and their means themselves. For bars and
lines they come out as in the plain chart, so that error bars add one series and
change nothing else. That series has one point for each category with numbers,
in the order of the category axis.
-/

namespace ChartCompiler

open Statistics

/-! ## The overlay -/

namespace ErrorBarPoint

/-- What a point shows: its category and the ends of its bar. -/
def entry (p : ErrorBarPoint) : Point :=
  [.text p.category, .number p.low, .number p.high]

theorem category_of_of? {e : ErrorBar} {category : String} {values : List Float}
    {p : ErrorBarPoint} (hp : of? e category values = some p) :
    p.category = category := by
  obtain ⟨center, -, rfl⟩ := Option.map_eq_some_iff.mp hp
  rfl

/-- A category has a point exactly if it has numbers. -/
theorem map_category_of? (e : ErrorBar) (category : String) (values : List Float) :
    (of? e category values).map ErrorBarPoint.category =
      if values ≠ [] then some category else none := by
  unfold of? mean?
  cases values <;> rfl

/-- The points along the categories leave out those without numbers. -/
theorem categories_filterMap_of? (e : ErrorBar) (numbers : String → List Float)
    (categories : List String) :
    (categories.filterMap fun category => of? e category (numbers category)).map
      ErrorBarPoint.category =
      categories.filter fun category => numbers category ≠ [] := by
  rw [List.map_filterMap, ← List.filterMap_eq_filter]
  apply List.filterMap_congr
  intro category _
  rw [map_category_of?]
  simp [Option.guard]

end ErrorBarPoint

/-- A mean is a gap only over no numbers. -/
theorem Datum.ofNumber?_mean?_eq_gap_iff (values : List Float) :
    ofNumber? (mean? values) = .gap ↔ values = [] := by
  cases values <;> simp [mean?, ofNumber?]

/-- A series of means has its gaps at the categories without numbers. -/
theorem Table.gap_mem_meanPoints_iff (rows : Table) {x : String} (y : String)
    {category : String} (hcategory : category ∈ rows.distinctLabels x) :
    [.text category, .gap] ∈ rows.meanPoints x y ↔
      rows.numbersAt x y category = [] := by
  rw [← Datum.ofNumber?_mean?_eq_gap_iff]
  constructor
  · intro hgap
    obtain ⟨other, -, hentry⟩ := List.mem_map.mp hgap
    injection hentry with htext hrest
    injection htext with hsame
    injection hrest with hmean
    rw [← hsame, hmean]
  · intro hmean
    refine List.mem_map.mpr ⟨category, hcategory, ?_⟩
    rw [hmean]

/-- One series shows means along the categories, and another one the bars over
them: where a category has no numbers there is a gap in the means and no bar,
and everywhere else one bar. -/
structure Series.IsErrorOverlay (overlay means : Series) (e : ErrorBar)
    (numbers : String → List Float) (categories : List String) : Prop where
  type : overlay.type = .custom
  renderItem : overlay.renderItem = some "errorBar"
  nodup : categories.Nodup
  centers : means.data = categories.map fun category =>
    [.text category, .ofNumber? (mean? (numbers category))]
  gaps : ∀ category ∈ categories,
    [.text category, .gap] ∈ means.data ↔ numbers category = []
  bars : ∃ points : List ErrorBarPoint,
    points.map ErrorBarPoint.category =
      categories.filter (fun category => numbers category ≠ []) ∧
    (∀ p ∈ points, ErrorBarPoint.of? e p.category (numbers p.category) = some p) ∧
    overlay.data = points.map ErrorBarPoint.entry

namespace ErrorBarChart

/-- The points stand for the categories with numbers, in order. -/
theorem points_build (chartType : ChartType) (encoding : Encoding) (e : ErrorBar)
    (rows : Table) :
    (build chartType encoding e rows).points =
      (rows.distinctLabels encoding.x.field).filterMap fun category =>
        ErrorBarPoint.of? e category
          (rows.numbersAt encoding.x.field encoding.y.field category) := by
  unfold build
  simp only [Table.groupValues_eq_map, List.filterMap_map]
  rfl

/-- The two series: the means, and the bars over them. -/
theorem series_build (chartType : ChartType) (encoding : Encoding) (e : ErrorBar)
    (rows : Table) :
    ∃ means overlay,
      (build chartType encoding e rows).area.series = [means, overlay] ∧
      means = .plain chartType.meanMark encoding.y.displayName
        [encoding.x.field, encoding.y.field]
        (.pair encoding.x.field encoding.y.field)
        (rows.meanPoints encoding.x.field encoding.y.field) ∧
      overlay.IsErrorOverlay means e
        (rows.numbersAt encoding.x.field encoding.y.field)
        (rows.distinctLabels encoding.x.field) := by
  have hpoints := points_build chartType encoding e rows
  have hmeans : ((rows.groupValues encoding.x.field encoding.y.field).map
      fun group => [Datum.text group.1, .ofNumber? (mean? group.2)]) =
        rows.meanPoints encoding.x.field encoding.y.field := by
    rw [Table.groupValues_eq_map, List.map_map]
    rfl
  refine ⟨_, _, congrArg (fun data => [Series.plain _ _ _ _ data, _]) hmeans, rfl, ?_⟩
  refine ⟨rfl, rfl, rows.nodup_distinctLabels _, rfl, ?_, _, ?_, ?_,
    congrArg (List.map ErrorBarPoint.entry) hpoints⟩
  · exact fun category hcategory => rows.gap_mem_meanPoints_iff _ hcategory
  · exact ErrorBarPoint.categories_filterMap_of? e _ _
  · intro p hp
    obtain ⟨category, -, hpoint⟩ := List.mem_filterMap.mp hp
    rw [ErrorBarPoint.category_of_of? hpoint]
    exact hpoint

end ErrorBarChart

theorem ChartType.showsMeans_of_bar_or_line {chartType : ChartType}
    (hchart : chartType = .bar ∨ chartType = .line) : chartType.showsMeans = true := by
  rcases hchart with rfl | rfl
  · rfl
  · rfl

namespace ChartSpec

/-- For bars and lines, axes and means are those of the plain chart. -/
theorem errorBarFigure_eq {spec : ChartSpec}
    (hchart : spec.chartType = .bar ∨ spec.chartType = .line) (rows : Table) :
    ∃ means overlay, (spec.plainArea rows).series = [means] ∧
      overlay.IsErrorOverlay means spec.errorBarOrUsual
        (rows.numbersAt spec.encoding.x.field spec.encoding.y.field)
        (rows.distinctLabels spec.encoding.x.field) ∧
      spec.errorBarFigure rows =
        (Figure.ofArea (spec.plainArea rows)).push overlay := by
  have hmeans := ChartType.showsMeans_of_bar_or_line hchart
  have haxes : (ErrorBarChart.build spec.chartType spec.encoding
      spec.errorBarOrUsual rows).area.axes = (spec.plainArea rows).axes := by
    rw [axes_plainArea hmeans, ← Table.keys_groupValues rows _ spec.encoding.y.field]
    rfl
  obtain ⟨means, overlay, hseries, rfl, hoverlay⟩ := ErrorBarChart.series_build
    spec.chartType spec.encoding spec.errorBarOrUsual rows
  have hplain : (spec.plainArea rows).series = [.plain spec.chartType.meanMark
      spec.encoding.y.displayName [spec.encoding.x.field, spec.encoding.y.field]
      (.pair spec.encoding.x.field spec.encoding.y.field)
      (rows.meanPoints spec.encoding.x.field spec.encoding.y.field)] := by
    rw [series_plainArea hmeans]
    unfold SeriesRequest.series
    rcases hchart with hbar | hline
    · rw [show spec.plainRequest.chartType = .bar from hbar, hbar]
      rfl
    · rw [show spec.plainRequest.chartType = .line from hline, hline]
      rfl
  refine ⟨_, overlay, hplain, hoverlay, ?_⟩
  unfold errorBarFigure Figure.push Figure.ofArea
  rw [haxes, hseries, hplain]
  rfl

/-! ## Whole configurations -/

/-- A series keeps its drawing and its data when it is finished. -/
theorem isErrorOverlay_finish (spec : ChartSpec) (horizontal : Bool)
    {overlay means : Series} {e : ErrorBar} {numbers : String → List Float}
    {categories : List String}
    (hoverlay : overlay.IsErrorOverlay means e numbers categories) :
    (spec.finish horizontal overlay).IsErrorOverlay (spec.finish horizontal means) e
      numbers categories := by
  rw [finish_eq spec horizontal overlay, finish_eq spec horizontal means]
  exact ⟨hoverlay.type, hoverlay.renderItem, hoverlay.nodup, hoverlay.centers,
    hoverlay.gaps, hoverlay.bars⟩

/-- Where error bars are asked for, nothing else stays. -/
theorem isActive_of_errorBar {spec : ChartSpec} (hasks : spec.asks .errorBar = true)
    (f : Feature) : spec.resolution.isActive f = decide (f = .errorBar) := by
  rw [isActive_resolution]
  cases f <;> simp [Feature.stays, hasks]

/-- With every part left out nothing stays, unless the chart type itself asks. -/
theorem isActive_without_all {spec : ChartSpec} (hchart : spec.chartType ≠ .errorBar)
    (f : Feature) : (spec.without Feature.all).resolution.isActive f = false := by
  apply isActive_eq_false_of_asks
  rw [asks_without spec Feature.all fun heq => absurd heq hchart,
    decide_eq_false (not_not_intro f.mem_all), Bool.and_false]

section BarsAndLines

variable {spec : ChartSpec} (hchart : spec.chartType = .bar ∨ spec.chartType = .line)
  (hwanted : spec.errorBar.isSome = true)
include hchart

theorem chartType_ne_errorBar : spec.chartType ≠ .errorBar := by
  rcases hchart with hbar | hline
  · rw [hbar]
    decide
  · rw [hline]
    decide

include hwanted

theorem asks_errorBar : spec.asks .errorBar = true := by
  unfold asks requests
  rw [hwanted]
  rcases hchart with hbar | hline
  · rw [hbar]
    rfl
  · rw [hline]
    rfl

/-- The plain chart is presented as if its specification had the error bars. -/
theorem config_without_all (rows : Table) :
    (spec.without Feature.all).config rows =
      spec.present spec.resolution (.ofArea (spec.plainArea rows)) := by
  have hnone := isActive_without_all (chartType_ne_errorBar hchart)
  rw [config_without_eq_plainArea spec Feature.all fun f _ => hnone f, hnone]
  apply present_congr rfl rfl rfl
  intro f hother
  rw [hnone, isActive_of_errorBar (asks_errorBar hchart hwanted), decide_eq_false hother]

theorem config_errorBar (rows : Table) :
    spec.config rows = spec.present spec.resolution (spec.errorBarFigure rows) := by
  rw [config_eq, figure, isActive_of_errorBar (asks_errorBar hchart hwanted)]
  rfl

/-- The two configurations differ by the overlay, and it is one over the series
of the plain chart. -/
theorem config_eq_append_overlay (rows : Table) :
    ∃ means overlay, ((spec.without Feature.all).config rows).series = [means] ∧
      overlay.IsErrorOverlay means spec.errorBarOrUsual
        (rows.numbersAt spec.encoding.x.field spec.encoding.y.field)
        (rows.distinctLabels spec.encoding.x.field) ∧
      spec.config rows =
        { (spec.without Feature.all).config rows with
          series := ((spec.without Feature.all).config rows).series ++ [overlay] } := by
  have hactive := isActive_of_errorBar (asks_errorBar hchart hwanted)
  obtain ⟨means, overlay, hseries, hoverlay, hfigure⟩ := errorBarFigure_eq hchart rows
  rw [config_without_all hchart hwanted, config_errorBar hchart hwanted, hfigure]
  refine ⟨spec.finish false means, spec.finish false overlay, ?_,
    isErrorOverlay_finish spec false hoverlay, ?_⟩
  · rw [series_present, Figure.ofArea, hseries, hactive]
    rfl
  · rw [present_push spec (hactive .dualAxis) (hactive .colorGroup), hactive]
    rfl

/-- The category axis of the plain chart. -/
theorem xAxis_config_without_all (rows : Table) :
    ∃ axis, ((spec.without Feature.all).config rows).xAxis = .one axis ∧
      axis.data = some (rows.distinctLabels spec.encoding.x.field) := by
  rw [config_without_all hchart hwanted, xAxis_present]
  refine ⟨(spec.plainArea rows).axes.x.fillFonts spec.style.theme, rfl, ?_⟩
  rw [axes_plainArea (ChartType.showsMeans_of_bar_or_line hchart)]
  rfl

end BarsAndLines

/-- On bars and on lines, for every table, error bars add their overlay behind
the series of the plain chart and change nothing else. -/
theorem errorBar_appends_overlay {spec : ChartSpec} (hvalid : spec.violations = [])
    (hchart : spec.chartType = .bar ∨ spec.chartType = .line) {e : ErrorBar}
    (herror : spec.errorBar = some e) (rows : Table) :
    ∃ base axis means overlay,
      compile (spec.without Feature.all) rows = .ok base ∧
      compile spec rows = .ok { base with series := base.series ++ [overlay] } ∧
      base.xAxis = .one axis ∧
      axis.data = some (rows.distinctLabels spec.encoding.x.field) ∧
      base.series = [means] ∧
      overlay.IsErrorOverlay means e
        (rows.numbersAt spec.encoding.x.field spec.encoding.y.field)
        (rows.distinctLabels spec.encoding.x.field) := by
  have hwanted : spec.errorBar.isSome = true := by
    rw [herror]
    rfl
  have husual : spec.errorBarOrUsual = e := by
    rw [errorBarOrUsual, herror]
    rfl
  obtain ⟨axis, haxis, hcategories⟩ := xAxis_config_without_all hchart hwanted rows
  obtain ⟨means, overlay, hseries, hoverlay, hconfig⟩ :=
    config_eq_append_overlay hchart hwanted rows
  rw [husual] at hoverlay
  refine ⟨(spec.without Feature.all).config rows, axis, means, overlay,
    compile_eq_ok (violations_without Feature.all hvalid) rows, ?_, haxis, hcategories,
    hseries, hoverlay⟩
  rw [compile_eq_ok hvalid, hconfig]

/-- The crowded chart has a gap and no bar at the region that has no number. -/
theorem errorBar_appends_overlay_crowded :
    crowded.violations = [] ∧ ∃ base means overlay north,
      compile (crowded.without Feature.all) .sales = .ok base ∧
      compile crowded .sales = .ok { base with series := base.series ++ [overlay] } ∧
      base.series = [means] ∧ [.text "South", .gap] ∈ means.data ∧
      overlay.data = [ErrorBarPoint.entry north] ∧ north.category = "North" := by
  obtain ⟨base, axis, means, overlay, hbase, hconfig, -, -, hseries, hoverlay⟩ :=
    errorBar_appends_overlay violations_crowded (Or.inl rfl) rfl .sales
  have hregions : Table.sales.distinctLabels crowded.encoding.x.field =
      ["North", "South"] := by decide +kernel
  have hsouth : Table.sales.numbersAt crowded.encoding.x.field
      crowded.encoding.y.field "South" = [] := by decide +kernel
  have hnorth : (["North", "South"].filter fun category =>
      Table.sales.numbersAt crowded.encoding.x.field crowded.encoding.y.field
        category ≠ []) = ["North"] := by decide +kernel
  rw [hregions] at hoverlay
  obtain ⟨points, hcategories, -, hdata⟩ := hoverlay.bars
  rw [hnorth] at hcategories
  obtain ⟨north, rfl, hname⟩ := List.map_eq_singleton_iff.mp hcategories
  exact ⟨violations_crowded, base, means, overlay, north, hbase, hconfig, hseries,
    (hoverlay.gaps "South" (by decide)).mpr hsouth, hdata, hname⟩

end ChartSpec

end ChartCompiler
