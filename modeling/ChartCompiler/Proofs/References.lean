import ChartCompiler.Proofs.Composition

/-!
# References between series, axes and grids

Series name their axes by index, and axes name their grids. In a compiled
configuration every index leads to something, and what it leads to is in order:
each plot has its axis of categories, unless it shows points, and a second axis of
values exactly if that feature stays.
-/

namespace ChartCompiler

/-! ## Lists that carry their own places -/

section Numbered

variable {α β : Type} {tag : α → Option Nat} {items : List α}

/-- Every element carries its place in the list. -/
def IsNumbered (tag : α → Option Nat) (items : List α) : Prop :=
  ∀ i a, items[i]? = some a → tag a = some i

theorem IsNumbered.of_map {f : β → α} {parts : List β}
    (hnumbered : IsNumbered (tag ∘ f) parts) : IsNumbered tag (parts.map f) := by
  intro i a hi
  rw [List.getElem?_map] at hi
  obtain ⟨part, hpart, rfl⟩ := Option.map_eq_some_iff.mp hi
  exact hnumbered i part hpart

theorem IsNumbered.map_eq_range (hnumbered : IsNumbered tag items) :
    items.map tag = (List.range items.length).map some := by
  apply List.ext_getElem
  · simp
  · intro i hi _
    have hplace : i < items.length := by simpa using hi
    simp only [List.getElem_map, List.getElem_range]
    exact hnumbered i _ (List.getElem?_eq_getElem hplace)

/-- A number finds the element at its place and no other. -/
theorem IsNumbered.filter_eq (hnumbered : IsNumbered tag items) (j : Nat) :
    items.filter (fun a => tag a = some j) = items[j]?.toList := by
  induction items using List.reverseRecOn with
  | nil => rfl
  | append_singleton rest last ih =>
      have hrest : IsNumbered tag rest := by
        intro i a hi
        have hlt := (List.getElem?_eq_some_iff.mp hi).1
        exact hnumbered i a ((List.getElem?_append_left hlt).trans hi)
      have hlast : tag last = some rest.length :=
        hnumbered _ _ List.getElem?_concat_length
      rw [List.filter_append, ih hrest, List.filter_singleton, hlast]
      rcases Nat.lt_trichotomy j rest.length with hlt | rfl | hgt
      · simp [List.getElem?_append_left hlt, Nat.ne_of_gt hlt]
      · simp
      · have hlength : (rest ++ [last]).length ≤ j := by
          rw [List.length_append, List.length_singleton]
          omega
        simp [List.getElem?_eq_none hlength, Nat.le_of_lt hgt, Nat.ne_of_lt hgt]

end Numbered

/-! ## Coherent configurations -/

/-- An area over the x axis of another one shows values along y if that one does. -/
theorem PlotArea.IsSound.isCategory_y_of_common {chartType : ChartType}
    {area overlay : PlotArea} (hsound : area.IsSound chartType)
    (hoverlay : overlay.IsSound chartType) (hcommon : overlay.axes.x = area.axes.x)
    (hvalues : area.axes.y.isCategory = false) : overlay.axes.y.isCategory = false := by
  have hcount := hoverlay.categories.trans hsound.categories.symm
  unfold AxisPair.categoryCount at hcount
  rw [hcommon, hvalues, Nat.add_left_cancel_iff] at hcount
  exact Bool.toNat_eq_zero.mp hcount

/-- Areas placed one by one have their axes numbered. -/
theorem PlotArea.isNumbered_axes {areas : List PlotArea}
    (hplace : ∀ i (area : PlotArea), areas[i]? = some area →
      area.IsAt (some i) (some i) (some i)) :
    IsNumbered Axis.gridIndex (areas.map fun area => area.axes.x) ∧
      IsNumbered Axis.gridIndex (areas.map fun area => area.axes.y) :=
  ⟨.of_map fun i area hi => (hplace i area hi).xAxis,
    .of_map fun i area hi => (hplace i area hi).yAxis⟩

namespace RenderConfig

/-- The plots: one for each grid, or a single one outside of grids. -/
def plots (config : RenderConfig) : List (Option Nat) :=
  match config.grid with
  | none => [none]
  | some grids => (List.range grids.length).map some

def xAxesIn (config : RenderConfig) (plot : Option Nat) : List Axis :=
  config.xAxis.toList.filter fun a => a.gridIndex = plot

def yAxesIn (config : RenderConfig) (plot : Option Nat) : List Axis :=
  config.yAxis.toList.filter fun a => a.gridIndex = plot

/-- All references of a configuration hold: from series to axes, from axes to grids,
and from every plot to the axes that it needs. -/
structure IsCoherent (chartType : ChartType) (dual : Bool) (config : RenderConfig) :
    Prop where
  xIndex : ∀ s ∈ config.series, s.xAxisIndex.getD 0 < config.xAxis.toList.length
  yIndex : ∀ s ∈ config.series, s.yAxisIndex.getD 0 < config.yAxis.toList.length
  grids : ∀ grids, config.grid = some grids →
    config.xAxis.toList.map Axis.gridIndex = (List.range grids.length).map some ∧
      config.yAxis.toList.map Axis.gridIndex = (List.range grids.length).map some
  noGrids : config.grid = none → ∀ axis ∈ config.axes, axis.gridIndex = none
  axes : ∀ axis ∈ config.axes, axis.IsSound
  categoryAxes : ∀ plot ∈ config.plots,
    (config.xAxesIn plot ++ config.yAxesIn plot).countP Axis.isCategory =
      if chartType = .scatter then 0 else 1
  secondAxis : (∃ plot ∈ config.plots, (config.yAxesIn plot).length = 2) ↔ dual = true
  secondSeries : dual = true →
    config.series.countP (fun s => s.yAxisIndex = some 1) = 1

namespace ComposedOf

variable {config : RenderConfig} {chartType : ChartType} {dual : Bool}
  (h : config.ComposedOf chartType dual)
include h

theorem gridIndex_of_grids {grids : List Grid} (hgrids : config.grid = some grids) :
    config.xAxis.toList.map Axis.gridIndex = (List.range grids.length).map some ∧
      config.yAxis.toList.map Axis.gridIndex = (List.range grids.length).map some := by
  cases h with
  | single hshows =>
      rw [hshows.grid] at hgrids
      cases hgrids
  | dual hshows =>
      rw [hshows.grid] at hgrids
      cases hgrids
  | cells hshows =>
      obtain rfl := Option.some.inj (hshows.grid.symm.trans hgrids)
      obtain ⟨hx, hy⟩ := PlotArea.isNumbered_axes hshows.place
      have hxAxes := hx.map_eq_range
      have hyAxes := hy.map_eq_range
      rw [List.length_map, ← hshows.count] at hxAxes hyAxes
      rw [hshows.xAxis, hshows.yAxis]
      exact ⟨hxAxes, hyAxes⟩

theorem gridIndex_of_noGrids (hgrids : config.grid = none) {axis : Axis}
    (haxis : axis ∈ config.axes) : axis.gridIndex = none := by
  unfold axes at haxis
  cases h with
  | single hshows =>
      rw [hshows.xAxis, hshows.yAxis] at haxis
      rcases List.mem_append.mp haxis with hx | hy
      · exact List.mem_singleton.mp hx ▸ hshows.place.xAxis
      · exact List.mem_singleton.mp hy ▸ hshows.place.yAxis
  | dual hshows =>
      rw [hshows.xAxis, hshows.yAxis] at haxis
      rcases List.mem_append.mp haxis with hx | hy
      · exact List.mem_singleton.mp hx ▸ hshows.place.xAxis
      · rcases List.mem_cons.mp hy with rfl | hy
        · exact hshows.place.yAxis
        · exact List.mem_singleton.mp hy ▸ hshows.overlayPlace.yAxis
  | cells hshows =>
      rw [hshows.grid] at hgrids
      cases hgrids

/-- Every plot has the axes of one sound area, and beside a y axis at most an axis of
values. -/
theorem exists_area_of_plot {plot : Option Nat} (hplot : plot ∈ config.plots) :
    ∃ (area : PlotArea) (more : List Axis), area.IsSound chartType ∧
      config.xAxesIn plot = [area.axes.x] ∧
      config.yAxesIn plot = area.axes.y :: more ∧ more.length = dual.toNat ∧
      ∀ axis ∈ more, axis.isCategory = false := by
  unfold plots at hplot
  unfold xAxesIn yAxesIn
  cases h with
  | @single area hshows =>
      rw [hshows.grid] at hplot
      obtain rfl := List.mem_singleton.mp hplot
      refine ⟨area, [], hshows.sound, ?_, ?_, rfl, fun _ hnone => by cases hnone⟩
      · simp [hshows.xAxis, OneOrMany.toList, hshows.place.xAxis]
      · simp [hshows.yAxis, OneOrMany.toList, hshows.place.yAxis]
  | @dual area overlay _ hshows =>
      rw [hshows.grid] at hplot
      obtain rfl := List.mem_singleton.mp hplot
      refine ⟨area, [overlay.axes.y], hshows.sound, ?_, ?_, rfl, ?_⟩
      · simp [hshows.xAxis, OneOrMany.toList, hshows.place.xAxis]
      · simp [hshows.yAxis, OneOrMany.toList, hshows.place.yAxis,
          hshows.overlayPlace.yAxis]
      · intro axis haxis
        rw [List.mem_singleton.mp haxis]
        exact hshows.sound.isCategory_y_of_common hshows.overlaySound hshows.common
          hshows.upright
  | @cells areas _ hshows =>
      rw [hshows.grid] at hplot
      obtain ⟨i, hi, rfl⟩ := List.mem_map.mp hplot
      have harea : i < areas.length := hshows.count ▸ List.mem_range.mp hi
      obtain ⟨hx, hy⟩ := PlotArea.isNumbered_axes hshows.place
      refine ⟨areas[i], [], hshows.sound _ (List.getElem_mem harea), ?_, ?_, rfl,
        fun _ hnone => by cases hnone⟩
      · rw [hshows.xAxis, OneOrMany.toList, hx.filter_eq, List.getElem?_map,
          List.getElem?_eq_getElem harea]
        rfl
      · rw [hshows.yAxis, OneOrMany.toList, hy.filter_eq, List.getElem?_map,
          List.getElem?_eq_getElem harea]
        rfl

theorem countP_isCategory {plot : Option Nat} (hplot : plot ∈ config.plots) :
    (config.xAxesIn plot ++ config.yAxesIn plot).countP Axis.isCategory =
      if chartType = .scatter then 0 else 1 := by
  obtain ⟨area, more, hsound, hx, hy, -, hvalues⟩ := h.exists_area_of_plot hplot
  have hnone : more.countP Axis.isCategory = 0 := by
    rw [List.countP_eq_zero]
    intro axis haxis
    rw [hvalues axis haxis]
    exact Bool.false_ne_true
  rw [← hsound.categories, hx, hy]
  simp only [List.cons_append, List.nil_append, List.countP_cons, hnone]
  unfold AxisPair.categoryCount
  cases area.axes.x.isCategory <;> cases area.axes.y.isCategory <;> rfl

theorem exists_second_axis_iff :
    (∃ plot ∈ config.plots, (config.yAxesIn plot).length = 2) ↔ dual = true := by
  constructor
  · rintro ⟨plot, hplot, htwo⟩
    obtain ⟨area, more, -, -, hy, hmore, -⟩ := h.exists_area_of_plot hplot
    rw [hy, List.length_cons, hmore] at htwo
    cases dual with
    | true => rfl
    | false => cases htwo
  · rintro rfl
    have hplot : none ∈ config.plots := by
      unfold plots
      cases h with
      | dual hshows =>
          rw [hshows.grid]
          exact List.mem_singleton_self none
    obtain ⟨area, more, -, -, hy, hmore, -⟩ := h.exists_area_of_plot hplot
    refine ⟨none, hplot, ?_⟩
    rw [hy, List.length_cons, hmore]
    rfl

/-- Of the series only the overlay is bound to the second axis. -/
theorem countP_second (hdual : dual = true) :
    config.series.countP (fun s => s.yAxisIndex = some 1) = 1 := by
  cases h with
  | single => cases hdual
  | cells => cases hdual
  | @dual area overlay line hshows =>
      have hfirst : area.series.countP (fun s => s.yAxisIndex = some 1) = 0 := by
        rw [List.countP_eq_zero]
        intro s hs
        simp [(hshows.place.series s hs).2]
      have hmem : line ∈ overlay.series :=
        hshows.overlaySeries ▸ List.mem_singleton_self line
      have hline : line.yAxisIndex = some 1 := (hshows.overlayPlace.series line hmem).2
      rw [hshows.series, List.countP_append, hfirst, hshows.overlaySeries]
      simp [hline]

theorem isCoherent : config.IsCoherent chartType dual where
  xIndex s hs := by
    obtain ⟨_, -, -, hx, -⟩ := h.exists_area hs
    exact (List.getElem?_eq_some_iff.mp hx).1
  yIndex s hs := by
    obtain ⟨_, -, -, -, hy⟩ := h.exists_area hs
    exact (List.getElem?_eq_some_iff.mp hy).1
  grids _ := h.gridIndex_of_grids
  noGrids hgrids _ := h.gridIndex_of_noGrids hgrids
  axes _ := h.isSound_of_mem_axes
  categoryAxes _ := h.countP_isCategory
  secondAxis := h.exists_second_axis_iff
  secondSeries := h.countP_second

end ComposedOf

end RenderConfig

namespace ChartSpec

/-- Small multiples of no rows have no cells. -/
theorem config_facet_nil {spec : ChartSpec}
    (hactive : spec.resolution.isActive .facet = true) :
    (spec.config []).axes = [] ∧ (spec.config []).series = [] := by
  obtain ⟨facet, hfacet⟩ := exists_facet hactive
  rw [config_facet hactive hfacet]
  refine ⟨rfl, ?_⟩
  rw [series_present]
  rfl

/-- For every valid specification and every table, all references of the compiled
configuration hold. Small multiples of no rows have no axes, and then no series
that could refer to one. -/
theorem compile_coherent {spec : ChartSpec} (hvalid : spec.violations = [])
    (rows : Table) :
    ∃ config, compile spec rows = .ok config ∧
      config.IsCoherent spec.chartType (spec.resolution.isActive .dualAxis) ∧
      (spec.resolution.isActive .facet = true → rows = [] →
        config.axes = [] ∧ config.series = []) := by
  refine ⟨spec.config rows, compile_eq_ok hvalid rows,
    (composedOf_config spec rows).isCoherent, ?_⟩
  rintro hactive rfl
  exact config_facet_nil hactive

/-- The paired chart has two y axes, and one series on the second. -/
theorem compile_coherent_paired :
    paired.violations = [] ∧ paired.resolution.isActive .dualAxis = true ∧
      ∃ config, compile paired .sales = .ok config ∧
        config.IsCoherent .bar true := by
  have hvalid : paired.violations = [] :=
    violations_without [.errorBar, .facet, .horizontal] violations_crowded
  have hactive : paired.resolution.isActive .dualAxis = true := by decide +kernel
  obtain ⟨config, hconfig, hcoherent, -⟩ := compile_coherent hvalid .sales
  rw [hactive] at hcoherent
  exact ⟨hvalid, hactive, config, hconfig, hcoherent⟩

end ChartSpec

end ChartCompiler
