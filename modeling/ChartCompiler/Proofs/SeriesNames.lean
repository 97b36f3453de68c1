import ChartCompiler.Proofs.Conservation
import ChartCompiler.Proofs.SecondaryAxis

/-!
# Names of series and of their dimensions

What a series is called, and what its dimensions are called, is settled where the series is built
and can be read off it wherever it stands. Means and points are called by the field along y or by
the labels that split the rows; a fitted line and error bars have names of their own.
-/

namespace ChartCompiler

namespace Series

def naming (s : Series) : String × List String :=
  (s.name, s.dimensions)

theorem isIntrinsic_naming : IsIntrinsic naming :=
  ⟨fun _ => rfl, fun _ _ => rfl, fun _ _ => rfl⟩

end Series

open Series (naming isIntrinsic_naming)

/-! ## Requests -/

namespace SeriesRequest

open Statistics

def fields (request : SeriesRequest) : List String :=
  [request.x.field, request.y.field]

/-- The names of the series over both fields: that of the second field, or the labels that split
the rows. -/
def groupNames (request : SeriesRequest) (rows : Table) : List String :=
  match request.group with
  | none => [request.y.displayName]
  | some group => rows.distinctLabels group.field

def HasFit (request : SeriesRequest) (rows : Table) : Prop :=
  request.chartType = .scatter ∧ request.trendline = true ∧
    (fit? (rows.numberPairs request.x.field request.y.field)).isSome = true

instance (request : SeriesRequest) (rows : Table) : Decidable (request.HasFit rows) :=
  inferInstanceAs (Decidable (_ ∧ _ ∧ _))

def trendNames (request : SeriesRequest) (rows : Table) : List String :=
  if request.HasFit rows then ["Linear fit"] else []

theorem map_naming_trend {request : SeriesRequest} (hchart : request.chartType = .scatter)
    (rows : Table) :
    (if request.trendline then
      (request.trendSeries? (rows.numberPairs request.x.field request.y.field)).toList
      else []).map naming = (request.trendNames rows).map (·, request.fields) := by
  by_cases hfit : request.HasFit rows
  · obtain ⟨line, hline⟩ := Option.isSome_iff_exists.mp hfit.2.2
    rw [trendNames, if_pos hfit, if_pos hfit.2.1, trendSeries?, hline]
    rfl
  · rw [trendNames, if_neg hfit]
    split
    · next htrend =>
        have hline : fit? (rows.numberPairs request.x.field request.y.field) = none :=
          Option.not_isSome_iff_eq_none.mp fun hsome => hfit ⟨hchart, htrend, hsome⟩
        rw [trendSeries?, hline]
        rfl
    · rfl

/-- Means and points go by the labels that split the rows, and a line that is fitted to the points
by a name of its own. -/
theorem map_naming_build {request : SeriesRequest}
    (hdrawn : request.chartType.showsMeans = true ∨ request.chartType = .scatter)
    (rows : Table) :
    (request.build rows).series.map naming =
      (request.groupNames rows ++ request.trendNames rows).map (·, request.fields) := by
  rcases hdrawn with hmeans | hscatter
  · have hnone : request.trendNames rows = [] := by
      apply if_neg
      rintro ⟨hscatter, -⟩
      rw [hscatter] at hmeans
      cases hmeans
    rw [build_eq_categorySeries hmeans, hnone, List.append_nil]
    unfold categorySeries groupNames
    cases request.group with
    | none => rfl
    | some group =>
        dsimp only
        rw [series_groupedSeries, List.map_map]
        rfl
  · rw [build_eq_scatterSeries hscatter, List.map_append, ← map_naming_trend hscatter rows]
    unfold scatterSeries groupNames
    rw [List.map_append]
    cases request.group with
    | none => rfl
    | some group =>
        rw [List.map_map]
        rfl

end SeriesRequest

/-! ## Configurations -/

namespace ChartSpec

/-- Error bars go by fixed names. -/
theorem map_naming_errorBar {spec : ChartSpec} (hactive : spec.resolution.isActive .errorBar = true)
    (rows : Table) :
    (spec.config rows).series.map naming =
      [(spec.encoding.y.displayName, [spec.encoding.x.field, spec.encoding.y.field]),
        ("error", [spec.encoding.x.field, "low", "high"])] := by
  rw [config_eq, isIntrinsic_naming.map_present, figure, hactive]
  rfl

/-- A line against a secondary axis goes by the name of its field. -/
theorem map_naming_dualAxis {spec : ChartSpec} (hactive : spec.resolution.isActive .dualAxis = true)
    {y2 : FieldDef} (hy2 : spec.encoding.y2 = some y2) (rows : Table) :
    (spec.config rows).series.map naming =
      [(spec.encoding.y.displayName, [spec.encoding.x.field, spec.encoding.y.field]),
        (y2.displayName, [spec.encoding.x.field, y2.field])] := by
  rw [config_dualAxis hactive hy2, isIntrinsic_naming.map_present, Figure.withDualAxis,
    series_plainArea (showsMeans_of_dualAxis hactive)]
  rfl

end ChartSpec

end ChartCompiler
