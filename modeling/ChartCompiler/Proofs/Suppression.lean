import ChartCompiler.Proofs.Presentation

/-!
# Features that do not stay leave no trace

`essential` leaves out of a specification all that the chart does not show: the
parts that ask for features which give way or which the chart type cannot do,
and the trendline of a chart without points. What is left asks for exactly the
features that stay, so it resolves to them, and the same chart comes out.
-/

namespace ChartCompiler

namespace ChartSpec

/-- The features that the specification may ask for but that do not stay. -/
def dropped (spec : ChartSpec) : List Feature :=
  Feature.all.filter (· ∉ spec.resolution.active)

theorem mem_dropped_iff (spec : ChartSpec) (f : Feature) :
    f ∈ spec.dropped ↔ f ∉ spec.resolution.active := by
  simp [dropped, Feature.mem_all]

/-- The specification without the parts that the chart does not show. -/
def essential (spec : ChartSpec) : ChartSpec :=
  { spec.without spec.dropped with
    trendline := if spec.chartType = .scatter then spec.trendline else none }

/-- A chart of error bars keeps its error bars. -/
theorem errorBar_notMem_dropped {spec : ChartSpec}
    (hchart : spec.chartType = .errorBar) : .errorBar ∉ spec.dropped := by
  have hactive : spec.resolution.isActive .errorBar = true := by
    rw [isActive_resolution]
    simp [Feature.stays, asks, requests, hchart, ChartType.capabilities,
      Capabilities.supports]
  rw [mem_dropped_iff, not_not]
  exact (Resolution.isActive_eq_true_iff _ _).mp hactive

/-- What is left asks for the features that stay. -/
theorem requestedFeatures_essential (spec : ChartSpec) :
    spec.essential.requestedFeatures = spec.resolution.active := by
  have hactive : spec.resolution.active = Feature.all.filter (Feature.stays spec.asks) :=
    Feature.active_resolve_standard spec.asks
  apply (requestedFeatures_trendline (spec.without spec.dropped) _).trans
  rw [requestedFeatures_without spec spec.dropped errorBar_notMem_dropped]
  change (Feature.all.filter spec.asks).filter (· ∉ spec.dropped) = _
  rw [hactive, List.filter_filter]
  apply List.filter_congr
  intro f _
  have hkept : decide (f ∉ spec.dropped) = Feature.stays spec.asks f := by
    rw [← isActive_resolution]
    simp [mem_dropped_iff, Resolution.isActive]
  rw [hkept]
  cases hstays : Feature.stays spec.asks f with
  | true => rw [Feature.asked_of_stays hstays]; rfl
  | false => rfl

theorem resolution_essential (spec : ChartSpec) :
    spec.essential.resolution = ⟨spec.resolution.active, []⟩ := by
  unfold resolution
  rw [requestedFeatures_essential]
  exact Resolution.resolve_active_resolve Rule.standard spec.requestedFeatures

theorem wantsTrendline_essential (spec : ChartSpec) :
    spec.essential.wantsTrendline = spec.wantsTrendline := by
  by_cases hchart : spec.chartType = .scatter
  · simp [wantsTrendline, essential, without, hchart]
  · simp [wantsTrendline, essential, without, hchart]

/-- Parts whose features do not stay, and a trendline that is not wanted, may
be left out as long as the same features stay. -/
theorem config_reduced (spec : ChartSpec) (features : List Feature)
    (trendline : Option Trendline)
    (hactive : { spec.without features with trendline }.resolution.active =
      spec.resolution.active)
    (hleft : ∀ f ∈ features, spec.resolution.isActive f = false)
    (hwants : { spec.without features with trendline }.wantsTrendline =
      spec.wantsTrendline) (rows : Table) :
    { spec.without features with trendline }.config rows = spec.config rows := by
  have hfigure (palette : List String) :
      { spec.without features with trendline }.figure spec.resolution palette rows =
        spec.figure spec.resolution palette rows :=
    (figure_trendline (spec.without features) trendline hwants spec.resolution
      palette rows).trans (figure_without spec hleft palette rows)
  rw [config_eq, config_eq, figure_of_active_eq _ hactive, hfigure]
  apply present_congr rfl rfl rfl
  intro f _
  rw [Resolution.isActive, hactive, Resolution.isActive]

theorem config_essential (spec : ChartSpec) (rows : Table) :
    spec.essential.config rows = spec.config rows := by
  have hleft : ∀ f ∈ spec.dropped, spec.resolution.isActive f = false := by
    intro f hf
    rw [Resolution.isActive, decide_eq_false_iff_not]
    exact (mem_dropped_iff spec f).mp hf
  have hactive : spec.essential.resolution.active = spec.resolution.active := by
    rw [resolution_essential]
  exact config_reduced spec spec.dropped _ hactive hleft
    (wantsTrendline_essential spec) rows

theorem violations_essential {spec : ChartSpec} (hvalid : spec.violations = []) :
    spec.essential.violations = [] :=
  (violations_trendline (spec.without spec.dropped) _).trans
    (violations_without spec.dropped hvalid)

/-- A valid specification may be reduced to what its chart shows: it stays
valid, and for every table the two have one and the same configuration. -/
theorem compile_essential {spec : ChartSpec} (hvalid : spec.violations = [])
    (rows : Table) :
    spec.essential.violations = [] ∧
      ∃ config, compile spec rows = .ok config ∧
        compile spec.essential rows = .ok config := by
  have hessential := violations_essential hvalid
  refine ⟨hessential, spec.config rows, compile_eq_ok hvalid rows, ?_⟩
  rw [compile_eq_ok hessential, config_essential]

theorem compile_essential_crowded :
    crowded.violations = [] ∧ crowded.essential.violations = [] ∧
      ∃ config, compile crowded .sales = .ok config ∧
        compile crowded.essential .sales = .ok config :=
  ⟨violations_crowded, compile_essential violations_crowded .sales⟩

end ChartSpec

end ChartCompiler
