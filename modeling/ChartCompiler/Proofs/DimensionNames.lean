import ChartCompiler.Proofs.Composition
import ChartCompiler.Proofs.SeriesNames

/-!
# Names of dimensions

A series is drawn by dimensions that it names, so a name must stand for one entry of its points.
Fields are named by the specification, and a chart may have dimensions of its own beside them.
The first two fields of a valid specification differ. No other names are kept apart: a field may
be called like a dimension of the chart, and the field of a secondary axis like that along x.
-/

namespace ChartCompiler

open Series (naming)

/-! ## Dimensions of one series -/

/-- Each name by which a series is drawn stands for one dimension, and each point has one entry
for each dimension. -/
structure Series.IsUnambiguous (s : Series) : Prop where
  encoded : ∀ d ∈ s.encode.x.toList ++ s.encode.y.toList, ∃! i : Nat, s.dimensions[i]? = some d
  entries : ∀ p ∈ s.data, p.length = s.dimensions.length

/-- In a sound area a series whose dimensions are named apart is drawn without ambiguity. -/
theorem PlotArea.IsSound.isUnambiguous {chartType : ChartType} {area : PlotArea}
    (hsound : area.IsSound chartType) {s : Series} (hs : s ∈ area.series)
    (hnodup : s.dimensions.Nodup) : s.IsUnambiguous := by
  have hfits := hsound.series s hs
  refine ⟨?_, hfits.entries⟩
  intro d hd
  obtain ⟨i, hi⟩ := List.mem_iff_getElem?.mp (hfits.encoded d hd)
  refine ⟨i, hi, ?_⟩
  intro j hj
  obtain ⟨hbound, -⟩ := List.getElem?_eq_some_iff.mp hj
  exact (List.getElem?_inj hbound hnodup).mp (hj.trans hi.symm)

def ChartType.ownDimensions : ChartType → List String
  | histogram => [SeriesRequest.countDimension]
  | boxplot => SeriesRequest.boxDimensions
  | violin => ["density"]
  | _ => []

theorem ChartType.showsMeans_of_supports_errorBar {chartType : ChartType}
    (hsupports : chartType.capabilities.supports .errorBar = true) :
    chartType.showsMeans = true := by
  cases chartType with
  | bar | line | errorBar => rfl
  | _ => cases hsupports

/-- The fields that a chart type draws beside dimensions of its own are not called like these. -/
structure ChartType.KeepsApart (chartType : ChartType) (x y : String) : Prop where
  x : x ∉ chartType.ownDimensions
  y : chartType = .violin → y ∉ chartType.ownDimensions

/-! ## Requests -/

namespace SeriesRequest

theorem nodup_histogramSeries_iff (request : SeriesRequest) (rows : Table) :
    (∀ s ∈ (request.histogramSeries rows).series, s.dimensions.Nodup) ↔
      request.x.field ∉ [countDimension] := by
  unfold histogramSeries
  dsimp only
  rw [List.forall_mem_singleton, Series.plain, List.nodup_cons]
  exact ⟨fun h => h.1, fun h => ⟨h, List.nodup_singleton _⟩⟩

theorem nodup_boxplotSeries_iff {request : SeriesRequest}
    (hfields : request.x.field ≠ request.y.field) (rows : Table) :
    (∀ s ∈ (request.boxplotSeries rows).series, s.dimensions.Nodup) ↔
      request.x.field ∉ boxDimensions := by
  have hbox : boxDimensions.Nodup := by decide
  unfold boxplotSeries
  dsimp only
  rw [List.forall_mem_cons]
  constructor
  · rintro ⟨hfirst, -⟩
    exact (List.nodup_cons.mp hfirst).1
  · intro hapart
    refine ⟨List.nodup_cons.mpr ⟨hapart, hbox⟩, ?_⟩
    intro s hs
    split at hs
    · cases hs
    · rw [List.mem_singleton.mp hs]
      exact List.pairwise_pair.mpr hfields

theorem nodup_violinSeries_iff {request : SeriesRequest}
    (hfields : request.x.field ≠ request.y.field) (rows : Table) :
    (∀ s ∈ (request.violinSeries rows).series, s.dimensions.Nodup) ↔
      request.x.field ∉ ["density"] ∧ request.y.field ∉ ["density"] := by
  unfold violinSeries
  dsimp only
  rw [List.forall_mem_singleton, Series.plain, List.nodup_cons, List.nodup_cons, List.mem_cons,
    not_or]
  exact ⟨fun h => ⟨h.1.2, h.2.1⟩, fun h => ⟨⟨hfields, h.1⟩, h.2, List.nodup_singleton _⟩⟩

/-- Means and points have the two fields for their dimensions. -/
theorem nodup_build_of_drawn {request : SeriesRequest}
    (hdrawn : request.chartType.showsMeans = true ∨ request.chartType = .scatter)
    (hfields : request.x.field ≠ request.y.field) (rows : Table) :
    ∀ s ∈ (request.build rows).series, s.dimensions.Nodup := by
  intro s hs
  have hnaming := List.mem_map_of_mem (f := naming) hs
  rw [map_naming_build hdrawn] at hnaming
  obtain ⟨name, -, hname⟩ := List.mem_map.mp hnaming
  rw [← show request.fields = s.dimensions from congrArg Prod.snd hname]
  exact List.pairwise_pair.mpr hfields

/-- The dimensions of a request are named apart exactly where its fields keep apart from the
dimensions of its chart type. -/
theorem nodup_build_iff {request : SeriesRequest}
    (hfields : request.x.field ≠ request.y.field) (rows : Table) :
    (∀ s ∈ (request.build rows).series, s.dimensions.Nodup) ↔
      request.chartType.KeepsApart request.x.field request.y.field := by
  cases hchart : request.chartType with
  | histogram =>
      rw [build_eq_histogramSeries hchart, nodup_histogramSeries_iff]
      exact ⟨fun hx => ⟨hx, by rintro ⟨⟩⟩, fun hapart => hapart.x⟩
  | boxplot =>
      rw [build, hchart, nodup_boxplotSeries_iff hfields]
      exact ⟨fun hx => ⟨hx, by rintro ⟨⟩⟩, fun hapart => hapart.x⟩
  | violin =>
      rw [build, hchart, nodup_violinSeries_iff hfields]
      exact ⟨fun h => ⟨h.1, fun _ => h.2⟩, fun hapart => ⟨hapart.x, hapart.y rfl⟩⟩
  | scatter =>
      exact iff_of_true (nodup_build_of_drawn (.inr hchart) hfields rows)
        ⟨List.not_mem_nil, by rintro ⟨⟩⟩
  | _ =>
      exact iff_of_true (nodup_build_of_drawn (.inl (by rw [hchart]; rfl)) hfields rows)
        ⟨List.not_mem_nil, by rintro ⟨⟩⟩

end SeriesRequest

/-! ## Configurations -/

namespace ChartSpec

/-- The two fields of a valid specification differ. -/
theorem x_ne_y {spec : ChartSpec} (hvalid : spec.violations = []) :
    spec.encoding.x.field ≠ spec.encoding.y.field := by
  have hsame := ((violations_eq_nil_iff spec).mp hvalid).sameField
  have hx := ((violations_eq_nil_iff spec).mp hvalid).x
  rw [Encoding.sameFieldViolations, Violation.when_eq_nil_iff] at hsame
  rw [FieldDef.violations_eq_nil_iff] at hx
  intro heq
  by_cases hempty : spec.encoding.x.field = ""
  · rw [hempty] at hx
    cases hx.1
  · rw [decide_eq_true hempty, decide_eq_true heq] at hsame
    cases hsame

/-- All dimensions are named apart: the fields from the dimensions of the chart type and from the
ends of error bars, and the field of a secondary axis from that along x. -/
structure DimensionsApart (spec : ChartSpec) : Prop where
  own : spec.chartType.KeepsApart spec.encoding.x.field spec.encoding.y.field
  ends : spec.resolution.isActive .errorBar = true → spec.encoding.x.field ∉ ["low", "high"]
  axes : spec.resolution.isActive .dualAxis = true →
    ∀ y2 ∈ spec.encoding.y2, y2.field ≠ spec.encoding.x.field

theorem nodup_dimensions_iff (config : RenderConfig) :
    (∀ s ∈ config.series, s.dimensions.Nodup) ↔
      ∀ names ∈ config.series.map naming, names.2.Nodup := by
  rw [List.forall_mem_map]
  rfl

/-- Charts of means draw no dimensions of their own. -/
theorem keepsApart_of_showsMeans {chartType : ChartType} (hmeans : chartType.showsMeans = true)
    (x y : String) : chartType.KeepsApart x y := by
  cases chartType with
  | scatter | histogram | boxplot | violin => cases hmeans
  | _ => exact ⟨nofun, nofun⟩

theorem dimensionsApart_iff_keepsApart {spec : ChartSpec}
    (herror : spec.resolution.isActive .errorBar = false)
    (hdual : spec.resolution.isActive .dualAxis = false) :
    spec.DimensionsApart ↔
      spec.chartType.KeepsApart spec.encoding.x.field spec.encoding.y.field := by
  refine ⟨fun hapart => hapart.own, fun hown => ⟨hown, fun hactive => ?_, fun hactive => ?_⟩⟩
  · rw [herror] at hactive
    cases hactive
  · rw [hdual] at hactive
    cases hactive

section Figures

variable {spec : ChartSpec} (hfields : spec.encoding.x.field ≠ spec.encoding.y.field)
  (rows : Table)
include hfields

theorem nodup_iff_of_errorBar (hactive : spec.resolution.isActive .errorBar = true) :
    (∀ s ∈ (spec.config rows).series, s.dimensions.Nodup) ↔ spec.DimensionsApart := by
  rw [isActive_resolution] at hactive
  have hmeans : spec.chartType.showsMeans = true :=
    ChartType.showsMeans_of_supports_errorBar (Bool.and_eq_true_iff.mp hactive).2
  have hother := isActive_of_errorBar hactive
  have hends : ["low", "high"].Nodup := by decide
  rw [nodup_dimensions_iff, map_naming_errorBar (hother .errorBar), List.forall_mem_cons,
    List.forall_mem_singleton]
  constructor
  · rintro ⟨-, hoverlay⟩
    refine ⟨keepsApart_of_showsMeans hmeans _ _, fun _ => (List.nodup_cons.mp hoverlay).1,
      fun hdual => ?_⟩
    rw [hother] at hdual
    cases hdual
  · intro hapart
    exact ⟨List.pairwise_pair.mpr hfields,
      List.nodup_cons.mpr ⟨hapart.ends (hother .errorBar), hends⟩⟩

theorem nodup_iff_of_facet (hactive : spec.resolution.isActive .facet = true) :
    (∀ s ∈ (spec.config rows).series, s.dimensions.Nodup) ↔
      spec.DimensionsApart ∨ rows = [] := by
  obtain ⟨facet, hfacet⟩ := exists_facet hactive
  obtain ⟨hasked, -⟩ := asks_of_isActive_facet hactive
  have hdual : spec.resolution.isActive .dualAxis = false := by
    simp [isActive_resolution, Feature.stays, hasked]
  have hpart (part : Table) :
      (∀ s ∈ (spec.plainRequest.build part).series, s.dimensions.Nodup) ↔
        spec.chartType.KeepsApart spec.encoding.x.field spec.encoding.y.field :=
    SeriesRequest.nodup_build_iff hfields part
  rw [nodup_dimensions_iff, Series.isIntrinsic_naming.map_facet hactive hfacet,
    dimensionsApart_iff_keepsApart (isActive_errorBar_of_facet hactive) hdual]
  constructor
  · intro hnodup
    have hperm := rows.partition_perm facet.field
    cases hparts : rows.partition facet.field with
    | nil =>
        rw [hparts] at hperm
        exact .inr (List.nil_perm.mp hperm)
    | cons part rest =>
        rw [hparts] at hnodup
        refine .inl ((hpart part.2).mp fun s hs => ?_)
        exact hnodup s.naming
          (List.mem_flatMap.mpr ⟨part, List.mem_cons_self, List.mem_map_of_mem hs⟩)
  · rintro (hown | rfl) names hnames
    · obtain ⟨part, -, hmem⟩ := List.mem_flatMap.mp hnames
      obtain ⟨s, hs, rfl⟩ := List.mem_map.mp hmem
      exact (hpart part.2).mpr hown s hs
    · cases hnames

theorem nodup_iff_of_dualAxis (hactive : spec.resolution.isActive .dualAxis = true) :
    (∀ s ∈ (spec.config rows).series, s.dimensions.Nodup) ↔ spec.DimensionsApart := by
  obtain ⟨y2, hy2⟩ := exists_y2 hactive
  have hother := isActive_of_dualAxis hactive
  rw [nodup_dimensions_iff, map_naming_dualAxis hactive hy2, List.forall_mem_cons,
    List.forall_mem_singleton]
  constructor
  · rintro ⟨-, hline⟩
    refine ⟨keepsApart_of_showsMeans (showsMeans_of_dualAxis hactive) _ _, fun herror => ?_,
      fun _ other hgiven heq => ?_⟩
    · rw [hother] at herror
      cases herror
    · rw [hy2, Option.mem_some] at hgiven
      exact List.pairwise_pair.mp hline (hgiven ▸ heq.symm)
  · intro hapart
    exact ⟨List.pairwise_pair.mpr hfields,
      List.pairwise_pair.mpr (Ne.symm (hapart.axes hactive y2 hy2))⟩

theorem nodup_iff_of_single (herror : spec.resolution.isActive .errorBar = false)
    (hfacet : spec.resolution.isActive .facet = false)
    (hdual : spec.resolution.isActive .dualAxis = false) :
    (∀ s ∈ (spec.config rows).series, s.dimensions.Nodup) ↔ spec.DimensionsApart := by
  rw [nodup_dimensions_iff, Series.isIntrinsic_naming.map_single herror hfacet hdual, List.forall_mem_map,
    dimensionsApart_iff_keepsApart herror hdual]
  exact SeriesRequest.nodup_build_iff hfields rows

end Figures

/-- For every valid specification and every table, the dimensions of each series are named apart
exactly where fields are not called like other dimensions of their chart, or where there are no
parts to show. Each series whose dimensions are named apart is drawn without ambiguity. -/
theorem compile_dimension_names {spec : ChartSpec} (hvalid : spec.violations = [])
    (rows : Table) :
    ∃ config, compile spec rows = .ok config ∧
      ((∀ s ∈ config.series, s.dimensions.Nodup) ↔
        spec.DimensionsApart ∨ spec.resolution.isActive .facet = true ∧ rows = []) ∧
      ∀ s ∈ config.series, s.dimensions.Nodup → s.IsUnambiguous := by
  refine ⟨spec.config rows, compile_eq_ok hvalid rows, ?_, ?_⟩
  · have hfields := x_ne_y hvalid
    cases hfacet : spec.resolution.isActive .facet with
    | true => exact (nodup_iff_of_facet hfields rows hfacet).trans (by simp)
    | false =>
        have hapart : (∀ s ∈ (spec.config rows).series, s.dimensions.Nodup) ↔
            spec.DimensionsApart := by
          cases herror : spec.resolution.isActive .errorBar with
          | true => exact nodup_iff_of_errorBar hfields rows herror
          | false =>
              cases hdual : spec.resolution.isActive .dualAxis with
              | true => exact nodup_iff_of_dualAxis hfields rows hdual
              | false => exact nodup_iff_of_single hfields rows herror hfacet hdual
        exact hapart.trans (by simp)
  · intro s hs hnodup
    obtain ⟨area, hsound, hmem, -, -⟩ := (composedOf_config spec rows).exists_area hs
    exact hsound.isUnambiguous hmem hnodup

/-- The crowded chart has error bars over regions. -/
theorem compile_dimension_names_crowded :
    crowded.violations = [] ∧ ∃ config, compile crowded .sales = .ok config ∧
      ∀ s ∈ config.series, s.dimensions.Nodup ∧ s.IsUnambiguous := by
  have hmeans : crowded.chartType.showsMeans = true := rfl
  have hdual : crowded.resolution.isActive .dualAxis = false := by decide +kernel
  have hapart : crowded.DimensionsApart := by
    refine ⟨keepsApart_of_showsMeans hmeans _ _, fun _ => by decide, fun hactive => ?_⟩
    rw [hdual] at hactive
    cases hactive
  obtain ⟨config, hconfig, hnodup, hclear⟩ := compile_dimension_names violations_crowded .sales
  have hall := hnodup.mpr (.inl hapart)
  exact ⟨violations_crowded, config, hconfig, fun s hs => ⟨hall s hs, hclear s hs (hall s hs)⟩⟩

/-- A histogram of a column that is called `count`. -/
def counted : ChartSpec :=
  { crowded with
    chartType := .histogram
    columns := [⟨"count", .quantitative, 2, [], false⟩, ⟨"sales", .quantitative, 2, [], false⟩]
    encoding := {
      x := ⟨"count", .quantitative, none⟩
      y := ⟨"sales", .quantitative, none⟩
      y2 := none
      color := none }
    facet := none }

/-- Its bars have two dimensions of one name, and both axes are drawn by it. -/
theorem histogram_repeats_dimension :
    let rows : Table := [[("count", .number (.integer 1)), ("sales", .number (.integer 3))],
      [("count", .number (.integer 2)), ("sales", .number (.integer 5))]]
    counted.violations = [] ∧ ∃ config, compile counted rows = .ok config ∧
      ∃ s, config.series = [s] ∧ s.dimensions = ["count", "count"] ∧
        s.encode.x.toList = ["count"] ∧ s.encode.y.toList = ["count"] ∧
        ¬ s.IsUnambiguous := by
  intro rows
  have hvalid : counted.violations = [] := by decide +kernel
  have hseries : (counted.config rows).series.map
      (fun s => (s.dimensions, s.encode.x.toList, s.encode.y.toList)) =
        [(["count", "count"], ["count"], ["count"])] := by decide +kernel
  obtain ⟨s, hs, hview⟩ := List.map_eq_singleton_iff.mp hseries
  simp only [Prod.mk.injEq] at hview
  obtain ⟨hdimensions, hx, hy⟩ := hview
  refine ⟨hvalid, _, compile_eq_ok hvalid rows, s, hs, hdimensions, hx, hy, ?_⟩
  intro hclear
  have hname : "count" ∈ s.encode.x.toList ++ s.encode.y.toList := by
    rw [hx]
    exact List.mem_cons_self
  obtain ⟨i, -, hunique⟩ := hclear.encoded "count" hname
  rw [hdimensions] at hunique
  have hsame : 0 = 1 := (hunique 0 rfl).trans (hunique 1 rfl).symm
  cases hsame

end ChartSpec

end ChartCompiler
