import ChartCompiler.Proofs.Composition

/-!
# Data aligned with their axes

A series of a compiled configuration fits the axes that it names. Its points have
an entry for each of its dimensions, it is drawn by dimensions that it has, and
along an axis of categories every point names one of them. Where means are shown,
there is one point for each category, in the order of the axis.
-/

namespace ChartCompiler

/-- The data of a series match the axes between which it is drawn. -/
structure Series.IsAligned (s : Series) (x y : Axis) : Prop where
  entries : ∀ p ∈ s.data, p.length = s.dimensions.length
  encoded : ∀ d ∈ s.encode.x.toList ++ s.encode.y.toList, d ∈ s.dimensions
  alongX : x.isCategory = true →
    ∃ items, x.data = some items ∧ s.RunsAlong s.encode.x items
  alongY : y.isCategory = true →
    ∃ items, y.data = some items ∧ s.RunsAlong s.encode.y items

/-- The points of a series are those of the one axis of categories among two axes,
category by category. -/
def Series.CoversAxis (s : Series) (x y : Axis) : Prop :=
  ∃ axis items, [x, y].filter Axis.isCategory = [axis] ∧ axis.data = some items ∧
    s.Covers items

namespace PlotArea.IsSound

variable {chartType : ChartType} {area : PlotArea} (hsound : area.IsSound chartType)
  {s : Series} (hs : s ∈ area.series)
include hsound hs

/-- In a sound area the series match the axes. -/
theorem isAligned : s.IsAligned area.axes.x area.axes.y := by
  have hfits := hsound.series s hs
  refine ⟨hfits.entries, hfits.encoded, ?_, ?_⟩
  · intro hcategory
    obtain ⟨items, hitems⟩ := hsound.x.exists_data hcategory
    exact ⟨items, hitems, hfits.alongX items hitems⟩
  · intro hcategory
    obtain ⟨items, hitems⟩ := hsound.y.exists_data hcategory
    exact ⟨items, hitems, hfits.alongY items hitems⟩

/-- In a sound area of means there is one axis of categories, and all series but
error bars have a point for each of them. -/
theorem coversAxis (hmeans : chartType.showsMeans = true)
    (herror : s.isErrorBars = false) : s.CoversAxis area.axes.x area.axes.y := by
  have hchart : chartType ≠ .scatter :=
    of_decide_eq_true (SeriesRequest.ne_scatter_of_showsMeans hmeans)
  have hone := hsound.categories
  rw [if_neg hchart] at hone
  unfold AxisPair.categoryCount at hone
  obtain ⟨hfirst, hsecond⟩ := hsound.covers hmeans s hs herror
  cases hx : area.axes.x.isCategory with
  | true =>
      rw [hx, Bool.toNat_true, Nat.add_eq_left, Bool.toNat_eq_zero] at hone
      obtain ⟨items, hitems⟩ := hsound.x.exists_data hx
      exact ⟨area.axes.x, items, by simp [hx, hone], hitems, hfirst items hitems⟩
  | false =>
      rw [hx, Bool.toNat_false, Nat.zero_add, Bool.toNat_eq_one] at hone
      obtain ⟨items, hitems⟩ := hsound.y.exists_data hone
      exact ⟨area.axes.y, items, by simp [hx, hone], hitems, hsecond items hitems⟩

end PlotArea.IsSound

namespace ChartSpec

/-- For every valid specification and every table, each series of the compiled
configuration matches the axes that it names. In charts of means each series, be
it of a group or against the second axis, has a point for each category in order;
only error bars may leave some out. -/
theorem compile_aligned {spec : ChartSpec} (hvalid : spec.violations = [])
    (rows : Table) :
    ∃ config, compile spec rows = .ok config ∧
      ∀ s ∈ config.series, ∃ x y, config.xAxisOf s = some x ∧
        config.yAxisOf s = some y ∧ s.IsAligned x y ∧
        (spec.chartType.showsMeans = true → s.isErrorBars = false →
          s.CoversAxis x y) := by
  refine ⟨spec.config rows, compile_eq_ok hvalid rows, ?_⟩
  intro s hs
  obtain ⟨area, hsound, hmem, hx, hy⟩ := (composedOf_config spec rows).exists_area hs
  exact ⟨area.axes.x, area.axes.y, hx, hy, hsound.isAligned hmem,
    hsound.coversAxis hmem⟩

/-- Without its error bars the crowded chart has a series for each of three plots,
and each covers the categories of its plot. -/
theorem compile_aligned_sales :
    (crowded.without [.errorBar]).violations = [] ∧
      ∃ config, compile (crowded.without [.errorBar]) .sales = .ok config ∧
        config.series.length = 3 ∧
        ∀ s ∈ config.series, ∃ x y, config.xAxisOf s = some x ∧
          config.yAxisOf s = some y ∧ s.IsAligned x y ∧ s.CoversAxis x y := by
  have hvalid := violations_without [.errorBar] violations_crowded
  obtain ⟨config, hconfig, haligned⟩ := compile_aligned hvalid .sales
  obtain rfl : (crowded.without [.errorBar]).config .sales = config :=
    Except.ok.inj ((compile_eq_ok hvalid .sales).symm.trans hconfig)
  have hcount : ((crowded.without [.errorBar]).config .sales).series.length = 3 := by
    decide +kernel
  have hbare : ∀ s ∈ ((crowded.without [.errorBar]).config .sales).series,
      s.isErrorBars = false := by decide +kernel
  refine ⟨hvalid, _, hconfig, hcount, ?_⟩
  intro s hs
  obtain ⟨x, y, hx, hy, hmatches, hcovers⟩ := haligned s hs
  exact ⟨x, y, hx, hy, hmatches, hcovers rfl (hbare s hs)⟩

end ChartSpec

end ChartCompiler
