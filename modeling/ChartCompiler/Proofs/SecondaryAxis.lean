import ChartCompiler.Proofs.Presentation

/-!
# Two charts over one row of categories

A chart with a secondary axis is the chart of its first field, with the means
that the chart of its second field would show drawn over it as a line. The line
follows the categories of the first chart. They are those of the second too,
since a category is listed whether or not any of its rows has a number.
-/

namespace ChartCompiler

theorem ChartType.showsMeans_of_supports_dualAxis {chartType : ChartType}
    (hsupports : chartType.capabilities.supports .dualAxis = true) :
    chartType.showsMeans = true := by
  cases chartType with
  | bar | line | area => rfl
  | _ => cases hsupports

/-- A configuration takes its x axis and its primary axis from one configuration,
and from another one the data of the line against its secondary axis. -/
structure RenderConfig.ComposesAxes (config base other : RenderConfig)
    (name : String) : Prop where
  xAxis : config.xAxis = base.xAxis
  yAxes : ∃ primary secondary, base.yAxis = .one primary ∧
    config.yAxis = .many [{ primary with position := some .left }, secondary] ∧
    secondary.type = .value ∧ secondary.name = name ∧
    secondary.position = some .right
  primary : ∀ s ∈ base.series, s.yAxisIndex = none
  series : ∃ line means, config.series = base.series ++ [line] ∧
    other.series = [means] ∧ line.type = .line ∧ line.yAxisIndex = some 1 ∧
    line.data = means.data

namespace ChartSpec

def withY (spec : ChartSpec) (y : FieldDef) : ChartSpec :=
  { spec with encoding := { spec.encoding with y } }

theorem withY_without (spec : ChartSpec) (features : List Feature) (y : FieldDef) :
    (spec.without features).withY y = (spec.withY y).without features := rfl

theorem requestedFeatures_withY (spec : ChartSpec) (y : FieldDef) :
    (spec.withY y).requestedFeatures = spec.requestedFeatures := rfl

/-- The second field may take the place of the first, unless it stands along x. -/
theorem violations_withY {spec : ChartSpec} (hvalid : spec.violations = [])
    {y2 : FieldDef} (hy2 : spec.encoding.y2 = some y2)
    (hfields : y2.field ≠ spec.encoding.x.field) : (spec.withY y2).violations = [] := by
  rw [violations_eq_nil_iff] at hvalid ⊢
  have hy : y2.violations spec.columns .y = [] := by
    have hsecond := hvalid.y2
    rw [hy2] at hsecond
    obtain ⟨hnamed, -⟩ := List.append_eq_nil_iff.mp hsecond
    rw [FieldDef.violations_eq_nil_iff] at hnamed ⊢
    exact hnamed
  have hsame : (spec.withY y2).encoding.sameFieldViolations = [] := by
    rw [Encoding.sameFieldViolations, Violation.when_eq_nil_iff]
    simp [withY, Ne.symm hfields]
  exact { hvalid with y := hy, sameField := hsame }

/-! ## The charts of one field and of both -/

section DualAxis

variable {spec : ChartSpec} (hactive : spec.resolution.isActive .dualAxis = true)
include hactive

/-- A secondary axis that stays was asked for and can be done, and nothing that it
gives way to was asked for. -/
theorem asks_of_isActive_dualAxis :
    spec.asks .dualAxis = true ∧ spec.asks .errorBar = false ∧
      spec.asks .facet = false ∧ spec.asks .horizontal = false := by
  rw [isActive_resolution] at hactive
  obtain ⟨hasked, halone⟩ := Bool.and_eq_true_iff.mp hactive
  have hothers := (Bool.not_eq_true' _).mp halone
  obtain ⟨hfirst, hhorizontal⟩ := Bool.or_eq_false_iff.mp hothers
  obtain ⟨herror, hfacet⟩ := Bool.or_eq_false_iff.mp hfirst
  exact ⟨hasked, herror, hfacet, hhorizontal⟩

/-- Beside a secondary axis nothing else stays. -/
theorem isActive_of_dualAxis (f : Feature) :
    spec.resolution.isActive f = decide (f = .dualAxis) := by
  obtain ⟨hasked, herror, hfacet, hhorizontal⟩ := asks_of_isActive_dualAxis hactive
  rw [isActive_resolution]
  cases f <;> simp [Feature.stays, hasked, herror, hfacet, hhorizontal]

theorem showsMeans_of_dualAxis : spec.chartType.showsMeans = true := by
  obtain ⟨hasked, -⟩ := asks_of_isActive_dualAxis hactive
  exact ChartType.showsMeans_of_supports_dualAxis (Bool.and_eq_true_iff.mp hasked).2

theorem isActive_withoutDual (f : Feature) :
    (spec.without [.dualAxis, .colorGroup]).resolution.isActive f = false := by
  obtain ⟨-, herror, hfacet, hhorizontal⟩ := asks_of_isActive_dualAxis hactive
  have hasks := asks_without spec [.dualAxis, .colorGroup] fun _ => by decide
  apply isActive_eq_false_of_asks
  cases f <;> simp [hasks, herror, hfacet, hhorizontal]

/-- The chart of the first field alone. -/
theorem config_withoutDual (rows : Table) :
    (spec.without [.dualAxis, .colorGroup]).config rows =
      spec.present (spec.without [.dualAxis, .colorGroup]).resolution
        (.ofArea (spec.plainArea rows)) := by
  have hnone := isActive_withoutDual hactive
  rw [config_without_eq_plainArea spec _ fun f _ => hnone f, hnone]
  rfl

/-- Its one series shows the means of that field. -/
theorem series_withoutDual (rows : Table) :
    ((spec.without [.dualAxis, .colorGroup]).config rows).series =
      [spec.finish false (spec.plainRequest.series spec.chartType.mark
        spec.encoding.y.displayName
        (rows.meanPoints spec.encoding.x.field spec.encoding.y.field))] := by
  have hnone := isActive_withoutDual hactive
  rw [config_withoutDual hactive, series_present, hnone, Figure.ofArea,
    series_plainArea (showsMeans_of_dualAxis hactive)]
  rfl

/-- The chart of both fields. -/
theorem config_dualAxis {y2 : FieldDef} (hy2 : spec.encoding.y2 = some y2)
    (rows : Table) :
    spec.config rows =
      spec.present spec.resolution
        (.withDualAxis (spec.plainArea rows)
          (DualAxis.build (spec.plainArea rows).axes.y spec.encoding.x y2
            (rows.distinctLabels spec.encoding.x.field) rows
            spec.style.theme.palette)) := by
  have herror := isActive_of_dualAxis hactive .errorBar
  have hfacet := isActive_of_dualAxis hactive .facet
  have hcolor := isActive_of_dualAxis hactive .colorGroup
  have hcategories : (spec.plainRequest.build rows).categories =
      some (rows.distinctLabels spec.encoding.x.field) := by
    rw [SeriesRequest.build_eq_wholeSeries (showsMeans_of_dualAxis hactive) rfl,
      SeriesRequest.categories_wholeSeries]
    rfl
  rw [config_eq, figure, plainFigure, herror, hfacet, hactive, hcolor, hy2]
  change spec.present _ (.withDualAxis (spec.plainArea rows)
    (DualAxis.build _ _ _ ((spec.plainRequest.build rows).categories.getD []) _ _)) = _
  rw [hcategories]
  rfl

/-- The chart of both fields has one series more, the line of the second field. -/
theorem series_dualAxis {y2 : FieldDef} (hy2 : spec.encoding.y2 = some y2)
    (rows : Table) :
    ∃ line, (spec.config rows).series =
        ((spec.without [.dualAxis, .colorGroup]).config rows).series ++ [line] ∧
      line.type = .line ∧ line.yAxisIndex = some 1 ∧
      line.data = rows.meanPoints spec.encoding.x.field y2.field := by
  let line := (DualAxis.build (spec.plainArea rows).axes.y spec.encoding.x y2
    (rows.distinctLabels spec.encoding.x.field) rows spec.style.theme.palette).series
  refine ⟨spec.finish false line, ?_, ?_, ?_, ?_⟩
  · have hhorizontal := isActive_of_dualAxis hactive .horizontal
    rw [config_dualAxis hactive hy2, config_withoutDual hactive, series_present,
      series_present, isActive_withoutDual hactive, hhorizontal]
    exact List.map_append
  · rw [finish_eq]
    rfl
  · rw [finish_eq]
    rfl
  · rw [finish_eq]
    exact categoryPoints_groupValues rows spec.encoding.x.field y2.field

theorem composesAxes_config {y2 : FieldDef} (hy2 : spec.encoding.y2 = some y2)
    (rows : Table) :
    (spec.config rows).ComposesAxes
      ((spec.without [.dualAxis, .colorGroup]).config rows)
      (((spec.without [.dualAxis, .colorGroup]).withY y2).config rows)
      y2.displayName := by
  have hother : (spec.withY y2).resolution.isActive .dualAxis = true := by
    rw [resolution, requestedFeatures_withY]
    exact hactive
  have hmeans := series_withoutDual hother rows
  rw [← withY_without] at hmeans
  obtain ⟨line, hseries, htype, hindex, hdata⟩ := series_dualAxis hactive hy2 rows
  refine ⟨?_, ?_, ?_, line, _, hseries, hmeans, htype, hindex, ?_⟩
  · rw [config_dualAxis hactive hy2, config_withoutDual hactive, xAxis_present,
      xAxis_present]
    rfl
  · rw [config_dualAxis hactive hy2, config_withoutDual hactive, yAxis_present,
      yAxis_present]
    exact ⟨_, _, rfl, rfl, rfl, rfl, rfl⟩
  · rw [series_withoutDual hactive]
    intro s hs
    rw [List.mem_singleton.mp hs, finish_eq]
    rfl
  · rw [hdata, finish_eq]
    rfl

end DualAxis

/-- For every valid specification in which a secondary axis stays, and every
table: the chart is that of the first field, with the means of the second field
as a line against an axis of its own. -/
theorem dualAxis_composes {spec : ChartSpec} (hvalid : spec.violations = [])
    (hactive : spec.resolution.isActive .dualAxis = true) {y2 : FieldDef}
    (hy2 : spec.encoding.y2 = some y2)
    (hfields : y2.field ≠ spec.encoding.x.field) (rows : Table) :
    ∃ config base other, compile spec rows = .ok config ∧
      compile (spec.without [.dualAxis, .colorGroup]) rows = .ok base ∧
      compile ((spec.without [.dualAxis, .colorGroup]).withY y2) rows = .ok other ∧
      config.ComposesAxes base other y2.displayName := by
  have hother : ((spec.without [.dualAxis, .colorGroup]).withY y2).violations = [] := by
    rw [withY_without]
    exact violations_without _ (violations_withY hvalid hy2 hfields)
  exact ⟨_, _, _, compile_eq_ok hvalid rows,
    compile_eq_ok (violations_without _ hvalid) rows, compile_eq_ok hother rows,
    composesAxes_config hactive hy2 rows⟩

/-- The crowded chart with nothing that a secondary axis gives way to. -/
def paired : ChartSpec :=
  crowded.without [.errorBar, .facet, .horizontal]

/-- The paired chart draws the profits over the sales. -/
theorem dualAxis_composes_paired :
    paired.violations = [] ∧ paired.resolution.isActive .dualAxis = true ∧
      ∃ config base other, compile paired .sales = .ok config ∧
        compile (paired.without [.dualAxis, .colorGroup]) .sales = .ok base ∧
        compile ((paired.without [.dualAxis, .colorGroup]).withY
          ⟨"profit", .quantitative, none⟩) .sales = .ok other ∧
        config.ComposesAxes base other "profit" := by
  have hvalid : paired.violations = [] :=
    violations_without [.errorBar, .facet, .horizontal] violations_crowded
  have hactive : paired.resolution.isActive .dualAxis = true := by decide +kernel
  exact ⟨hvalid, hactive, dualAxis_composes hvalid hactive rfl (by decide) .sales⟩

end ChartSpec

end ChartCompiler
