import ChartCompiler.Proofs.Presentation

/-!
# Small multiples are single plots side by side

Small multiples are built by a path of their own. Cell by cell it draws what
the single plot of the cell's rows would show, moved into a grid of its own;
only the bounds of value axes may be common to all cells. `facets_show_parts`
says so of whole configurations.
-/

namespace ChartCompiler

/-! ## Runs of a list -/

section Runs

variable {α β : Type} {tag : α → Nat → Bool} {run : Nat → β → List α}

theorem map_mapIdx {γ : Type} (g : α → γ) (f : Nat → β → α) (parts : List β) :
    (parts.mapIdx f).map g = parts.mapIdx fun i part => g (f i part) := by
  rw [List.mapIdx_eq_zipIdx_map, List.mapIdx_eq_zipIdx_map, List.map_map]
  rfl

theorem filter_run (htag : ∀ i b, ∀ a ∈ run i b, ∀ j, tag a j = decide (i = j))
    (i j : Nat) (b : β) :
    (run i b).filter (tag · j) = if i = j then run i b else [] := by
  split
  · next hsame =>
      apply List.filter_eq_self.mpr
      intro a ha
      rw [htag i b a ha j]
      exact decide_eq_true hsame
  · next hother =>
      apply List.filter_eq_nil_iff.mpr
      intro a ha
      rw [htag i b a ha j]
      exact fun heq => hother (of_decide_eq_true heq)

/-- If the run of each part carries the part's index, then filtering by an
index gives back one run. -/
theorem filter_flatten_mapIdx
    (htag : ∀ i b, ∀ a ∈ run i b, ∀ j, tag a j = decide (i = j))
    (parts : List β) (j : Nat) :
    (parts.mapIdx run).flatten.filter (tag · j) =
      (parts[j]?.map (run j)).getD [] := by
  induction parts using List.reverseRecOn with
  | nil => rfl
  | append_singleton parts part ih =>
      rw [List.mapIdx_concat, List.flatten_append, List.filter_append, ih,
        List.flatten_singleton, filter_run htag]
      split
      · next hlast =>
          subst hlast
          rw [List.getElem?_concat_length, List.getElem?_eq_none (Nat.le_refl _)]
          rfl
      · next hother =>
          rw [List.append_nil]
          by_cases hearlier : j < parts.length
          · rw [List.getElem?_append_left hearlier]
          · have hlater : (parts ++ [part]).length ≤ j := by
              rw [List.length_append, List.length_singleton]
              omega
            rw [List.getElem?_eq_none (by omega), List.getElem?_eq_none hlater]

/-- The list is made of those filters, one for each part in order. -/
theorem flatten_mapIdx_eq_flatMap_filter
    (htag : ∀ i b, ∀ a ∈ run i b, ∀ j, tag a j = decide (i = j))
    (parts : List β) :
    (parts.mapIdx run).flatten =
      (List.range parts.length).flatMap fun j =>
        (parts.mapIdx run).flatten.filter (tag · j) := by
  simp only [filter_flatten_mapIdx htag]
  rw [List.flatMap_def]
  congr 1
  apply List.ext_getElem
  · simp
  · intro i hi _
    have hpart : i < parts.length := by simpa using hi
    simp [List.getElem?_eq_getElem hpart]

end Runs

/-! ## Axes in cells -/

namespace Axis

/-- The axis without the bounds of the values that it shows. -/
def unbounded (a : Axis) : Axis :=
  if a.isCategory then a else { a with min := none, max := none }

def inGrid (index : Nat) (a : Axis) : Axis :=
  { a with gridIndex := some index }

/-- Bounds on an axis of values are all that `unbounded` forgets. -/
theorem unbounded_bounds {a : Axis} (hvalues : a.isCategory = false)
    (low high : Float) :
    { a with min := some low, max := some high }.unbounded = a.unbounded := by
  have hbounded :
      { a with min := some low, max := some high }.isCategory = false := hvalues
  unfold unbounded
  rw [hvalues, hbounded]
  rfl

theorem unbounded_fillFonts (theme : Theme) (a : Axis) :
    (a.fillFonts theme).unbounded = a.unbounded.fillFonts theme := by
  unfold unbounded
  rw [show (a.fillFonts theme).isCategory = a.isCategory from rfl]
  split <;> rfl

end Axis

namespace RenderConfig

/-- The series that are drawn between the axes of the given index. -/
def seriesAt (config : RenderConfig) (index : Nat) : List Series :=
  config.series.filter fun s => s.xAxisIndex = some index ∧ s.yAxisIndex = some index

/-- A configuration with `count` plots, each with its axes and its grid. -/
structure IsMultiples (config : RenderConfig) (count : Nat) : Prop where
  xAxes : ∃ axes, config.xAxis = .many axes ∧ axes.length = count
  yAxes : ∃ axes, config.yAxis = .many axes ∧ axes.length = count
  grids : ∃ grids, config.grid = some grids ∧ grids.length = count
  series : config.series = (List.range count).flatMap config.seriesAt

/-- The plot of the given index is the single plot of another configuration,
moved into a grid. Axes are compared by what `view` shows of them. -/
structure ShowsAt (config : RenderConfig) (index : Nat) (view : Axis → Axis)
    (single : RenderConfig) : Prop where
  xAxis : ∃ axis, single.xAxis = .one axis ∧
    (config.xAxis.toList[index]?).map view = some (view (axis.inGrid index))
  yAxis : ∃ axis, single.yAxis = .one axis ∧
    (config.yAxis.toList[index]?).map view = some (view (axis.inGrid index))
  series : config.seriesAt index = single.series.map (Series.bindAxes index)

end RenderConfig

/-! ## Areas in cells -/

theorem FacetLayout.index_getElem_items (n : Nat) (wanted : Option Nat) (i : Nat)
    (hi : i < (of n wanted).items.length) : (of n wanted).items[i].index = i := by
  have hn : n ≠ 0 := by
    rw [length_items] at hi
    omega
  simp [of, hn]

namespace FacetChart

/-- Common bounds change no series and, of the axes, only the bounds of y. -/
theorem shareBounds_eq (chartType : ChartType) (shared : Option (Float × Float))
    (area : PlotArea) :
    shareBounds chartType shared area = area ∨ ∃ low high,
      shareBounds chartType shared area =
        { area with axes.y := { area.axes.y with min := some low, max := some high } } := by
  cases shared with
  | none => exact Or.inl rfl
  | some extent => exact Or.inr ⟨_, _, rfl⟩

theorem series_shareBounds (chartType : ChartType)
    (shared : Option (Float × Float)) (area : PlotArea) :
    (shareBounds chartType shared area).series = area.series := by
  cases shared <;> rfl

/-- The extent of the value axes, if all cells share it. -/
def sharedBounds? (spec : ChartSpec) (facet : Facet) (rows : Table) :
    Option (Float × Float) :=
  if facet.shareAxis then
    sharedExtent? ((rows.partition facet.field).map fun part =>
      spec.plainRequest.build part.2)
  else none

def cellArea (spec : ChartSpec) (shared : Option (Float × Float))
    (horizontal : Bool) (index : Nat) (rows : Table) : PlotArea :=
  ((shareBounds spec.chartType shared (spec.plainArea rows)).oriented horizontal).bind
    index

def cellRequest (chartType : ChartType) (encoding : Encoding) (trendline : Bool) :
    SeriesRequest :=
  { chartType, x := encoding.x, y := encoding.y, group := none, trendline }

def cellSets (chartType : ChartType) (encoding : Encoding) (trendline : Bool)
    (parts : Groups Row) : List SeriesSet :=
  parts.map fun part => (cellRequest chartType encoding trendline).build part.2

/-- One area for each part, upright until it is turned and placed. -/
theorem areas_eq (chartType : ChartType) (encoding : Encoding) (facet : Facet)
    (rows : Table) (horizontal trendline : Bool) :
    (build chartType encoding facet rows horizontal trendline).areas =
      (rows.partition facet.field).mapIdx fun index part =>
        ((shareBounds chartType
          (if facet.shareAxis then
            sharedExtent? (cellSets chartType encoding trendline
              (rows.partition facet.field))
          else none)
          (.upright chartType encoding
            ((cellRequest chartType encoding trendline).build part.2))).oriented
          horizontal).bind index := by
  apply List.ext_getElem
  · simp [build]
  · intro i hi _
    simp only [build, List.getElem_map, List.getElem_zip, List.getElem_mapIdx,
      FacetLayout.index_getElem_items]
    rfl

/-- The areas are those of the parts, in order. -/
theorem areas_build (spec : ChartSpec) (facet : Facet) (horizontal : Bool)
    (rows : Table) :
    (build spec.chartType spec.encoding facet rows horizontal
      spec.wantsTrendline).areas =
      (rows.partition facet.field).mapIdx fun index part =>
        cellArea spec (sharedBounds? spec facet rows) horizontal index part.2 :=
  areas_eq ..

theorem length_grids_build (chartType : ChartType) (encoding : Encoding)
    (facet : Facet) (rows : Table) (horizontal trendline : Bool) :
    (build chartType encoding facet rows horizontal trendline).grids.length =
      (rows.partition facet.field).length := by
  simp [build]

end FacetChart

/-- Bounds along y stay on that one axis when the area is turned and placed. -/
theorem unbounded_bind_oriented {area : PlotArea}
    (hvalues : area.axes.y.isCategory = false) (low high : Float)
    (horizontal : Bool) (index : Nat) :
    let bounded : PlotArea :=
      { area with axes.y := { area.axes.y with min := some low, max := some high } }
    let placed := ((bounded.oriented horizontal).bind index).axes
    let free := ((area.oriented horizontal).bind index).axes
    placed.x.unbounded = free.x.unbounded ∧ placed.y.unbounded = free.y.unbounded := by
  have hgrid : (area.axes.y.inGrid index).isCategory = false := hvalues
  have hplaced := Axis.unbounded_bounds hgrid low high
  cases horizontal with
  | false => exact ⟨rfl, hplaced⟩
  | true => exact ⟨hplaced, rfl⟩

/-- What is compared of the axes in cells. -/
def Facet.view (facet : Facet) : Axis → Axis :=
  if facet.shareAxis then Axis.unbounded else id

/-- In its cell an area keeps its axes, up to the bounds of values if those are
common. -/
theorem view_cellArea (spec : ChartSpec) (facet : Facet) (horizontal : Bool)
    (index : Nat) (rows part : Table) :
    let placed := (FacetChart.cellArea spec
      (FacetChart.sharedBounds? spec facet rows) horizontal index part).axes
    let free := ((spec.plainArea part).oriented horizontal).axes
    facet.view placed.x = facet.view (free.x.inGrid index) ∧
      facet.view placed.y = facet.view (free.y.inGrid index) := by
  unfold Facet.view FacetChart.sharedBounds?
  cases facet.shareAxis with
  | false => exact ⟨rfl, rfl⟩
  | true =>
      simp only [↓reduceIte]
      rcases FacetChart.shareBounds_eq spec.chartType (FacetChart.sharedExtent? _)
          (spec.plainArea part) with heq | ⟨low, high, heq⟩
      · rw [FacetChart.cellArea, heq]
        exact ⟨rfl, rfl⟩
      · rw [FacetChart.cellArea, heq]
        exact unbounded_bind_oriented (spec.isCategory_y_plainArea part) low high
          horizontal index

theorem series_cellArea (spec : ChartSpec) (shared : Option (Float × Float))
    (horizontal : Bool) (index : Nat) (rows : Table) :
    (FacetChart.cellArea spec shared horizontal index rows).series =
      ((spec.plainArea rows).oriented horizontal).series.map
        (Series.bindAxes index) := by
  unfold FacetChart.cellArea PlotArea.bind PlotArea.oriented PlotArea.turn
  cases horizontal with
  | false => simp [FacetChart.series_shareBounds]
  | true => simp [FacetChart.series_shareBounds]

theorem Facet.view_fillFonts (facet : Facet) (theme : Theme) (a : Axis) :
    facet.view (a.fillFonts theme) = (facet.view a).fillFonts theme := by
  unfold Facet.view
  split
  · exact Axis.unbounded_fillFonts theme a
  · rfl

/-! ## Whole configurations -/

namespace ChartSpec

/-- The specification of the plot that each part has on its own. -/
def single (spec : ChartSpec) : ChartSpec :=
  spec.without [.facet, .dualAxis, .colorGroup]

/-- A bound series carries the index of its axes. -/
theorem bound_of_mem (spec : ChartSpec) (index : Nat) (part : String × Table) :
    ∀ s ∈ (spec.single.config part.2).series.map (Series.bindAxes index), ∀ other,
      decide (s.xAxisIndex = some other ∧ s.yAxisIndex = some other) =
        decide (index = other) := by
  intro s hs other
  obtain ⟨free, -, rfl⟩ := List.mem_map.mp hs
  simp [Series.bindAxes]

section Facets

variable {spec : ChartSpec} (hactive : spec.resolution.isActive .facet = true)
include hactive

/-- A facet that stays was asked for, and error bars were not. -/
theorem asks_of_isActive_facet : spec.asks .facet = true ∧ spec.asks .errorBar = false := by
  rw [isActive_resolution] at hactive
  obtain ⟨hasked, hnoError⟩ := Bool.and_eq_true_iff.mp hactive
  exact ⟨hasked, (Bool.not_eq_true' _).mp hnoError⟩

theorem exists_facet : ∃ facet, spec.facet = some facet := by
  obtain ⟨hasked, -⟩ := asks_of_isActive_facet hactive
  obtain ⟨hrequests, -⟩ := Bool.and_eq_true_iff.mp hasked
  cases hfacet : spec.facet with
  | none => simp [requests, hfacet] at hrequests
  | some facet => exact ⟨facet, rfl⟩

theorem isActive_errorBar_of_facet : spec.resolution.isActive .errorBar = false := by
  rw [isActive_resolution]
  exact (asks_of_isActive_facet hactive).2

/-- Of the features only sideways bars reach the single plots, and they do. -/
theorem isActive_single (f : Feature) :
    spec.single.resolution.isActive f =
      (decide (f = .horizontal) && spec.resolution.isActive .horizontal) := by
  obtain ⟨-, hnoError⟩ := asks_of_isActive_facet hactive
  have hasks := asks_without spec [.facet, .dualAxis, .colorGroup] fun _ => by decide
  rw [isActive_resolution, isActive_resolution]
  unfold single
  cases f with
  | errorBar => simp [Feature.stays, hasks, hnoError]
  | facet => simp [Feature.stays, hasks]
  | dualAxis => simp [Feature.stays, hasks]
  | colorGroup => simp [Feature.stays, hasks]
  | horizontal => simp [Feature.stays, hasks]

theorem isActive_horizontal_single :
    spec.single.resolution.isActive .horizontal =
      spec.resolution.isActive .horizontal := by
  rw [isActive_single hactive, decide_eq_true rfl, Bool.true_and]

theorem config_single (part : Table) :
    spec.single.config part =
      spec.present spec.single.resolution
        (.ofArea ((spec.plainArea part).oriented
          (spec.resolution.isActive .horizontal))) := by
  have hnone : ∀ f, f ≠ .horizontal → spec.single.resolution.isActive f = false := by
    intro f hf
    rw [isActive_single hactive, decide_eq_false hf]
    rfl
  rw [single, config_without_eq_plainArea spec _ hnone, ← single,
    isActive_horizontal_single hactive]

theorem config_facet {facet : Facet} (hfacet : spec.facet = some facet)
    (rows : Table) :
    spec.config rows =
      spec.present spec.resolution
        (.ofFacets (FacetChart.build spec.chartType spec.encoding facet rows
          (spec.resolution.isActive .horizontal) spec.wantsTrendline)) := by
  have hnoError := isActive_errorBar_of_facet hactive
  rw [config_eq, figure, hnoError, hactive, hfacet]
  rfl

/-- The series are those of the single plots, bound to their cells. -/
theorem series_config_facet {facet : Facet} (hfacet : spec.facet = some facet)
    (rows : Table) :
    (spec.config rows).series =
      ((rows.partition facet.field).mapIdx fun index part =>
        (spec.single.config part.2).series.map (Series.bindAxes index)).flatten := by
  have hbound (index : Nat) (part : Table) :
      (spec.single.config part).series.map (Series.bindAxes index) =
        (FacetChart.cellArea spec (FacetChart.sharedBounds? spec facet rows)
          (spec.resolution.isActive .horizontal) index part).series.map
          (spec.finish (spec.resolution.isActive .horizontal)) := by
    rw [config_single hactive, series_present, isActive_horizontal_single hactive,
      series_cellArea, List.map_map, List.map_map]
    apply List.map_congr_left
    intro s _
    exact (finish_bindAxes spec _ index s).symm
  simp only [hbound]
  rw [config_facet hactive hfacet, series_present]
  simp only [Figure.ofFacets, FacetChart.series, FacetChart.areas_build]
  rw [List.flatMap_def, List.map_flatten, List.map_map]
  rw [map_mapIdx]
  rfl

/-- The series at an index are those of the single plot of that part. -/
theorem seriesAt_config_facet {facet : Facet} (hfacet : spec.facet = some facet)
    (rows : Table) (index : Nat) :
    (spec.config rows).seriesAt index =
      ((rows.partition facet.field)[index]?.map fun part =>
        (spec.single.config part.2).series.map (Series.bindAxes index)).getD [] := by
  unfold RenderConfig.seriesAt
  rw [series_config_facet hactive hfacet]
  exact filter_flatten_mapIdx (bound_of_mem spec) _ index

theorem isMultiples_config_facet {facet : Facet} (hfacet : spec.facet = some facet)
    (rows : Table) :
    (spec.config rows).IsMultiples (rows.partition facet.field).length := by
  have hareas := FacetChart.areas_build spec facet
    (spec.resolution.isActive .horizontal) rows
  refine ⟨?_, ?_, ?_, ?_⟩
  · rw [config_facet hactive hfacet]
    refine ⟨_, rfl, ?_⟩
    simp [hareas]
  · rw [config_facet hactive hfacet]
    refine ⟨_, rfl, ?_⟩
    simp [hareas]
  · rw [config_facet hactive hfacet]
    exact ⟨_, rfl, FacetChart.length_grids_build ..⟩
  · unfold RenderConfig.seriesAt
    rw [series_config_facet hactive hfacet]
    exact flatten_mapIdx_eq_flatMap_filter (bound_of_mem spec) _

omit hactive in
/-- One side of the cells, x or y, shows the axis of the single plot there. -/
theorem view_getElem?_areas (facet : Facet) (rows : Table) (horizontal : Bool)
    {index : Nat} {part : String × Table}
    (hpart : (rows.partition facet.field)[index]? = some part)
    {side : AxisPair → Axis} {free : Axis}
    (hside : facet.view (side (FacetChart.cellArea spec
      (FacetChart.sharedBounds? spec facet rows) horizontal index part.2).axes) =
        facet.view (free.inGrid index)) (theme : Theme) :
    ((((FacetChart.build spec.chartType spec.encoding facet rows horizontal
      spec.wantsTrendline).areas.map fun area => side area.axes).map
        (Axis.fillFonts theme))[index]?).map facet.view =
      some (facet.view ((free.fillFonts theme).inGrid index)) := by
  rw [FacetChart.areas_build]
  simp only [List.getElem?_map, List.getElem?_mapIdx, hpart, Option.map_some,
    Facet.view_fillFonts, hside]
  rw [← Facet.view_fillFonts]
  rfl

theorem showsAt_config_facet {facet : Facet} (hfacet : spec.facet = some facet)
    (rows : Table) {index : Nat} {part : String × Table}
    (hpart : (rows.partition facet.field)[index]? = some part) :
    (spec.config rows).ShowsAt index facet.view (spec.single.config part.2) := by
  let free := ((spec.plainArea part.2).oriented
    (spec.resolution.isActive .horizontal)).axes
  obtain ⟨hx, hy⟩ := view_cellArea spec facet
    (spec.resolution.isActive .horizontal) index rows part.2
  refine ⟨⟨free.x.fillFonts spec.style.theme, ?_, ?_⟩,
    ⟨free.y.fillFonts spec.style.theme, ?_, ?_⟩, ?_⟩
  · rw [config_single hactive]
    rfl
  · rw [config_facet hactive hfacet]
    exact view_getElem?_areas facet rows _ hpart hx spec.style.theme
  · rw [config_single hactive]
    rfl
  · rw [config_facet hactive hfacet]
    exact view_getElem?_areas facet rows _ hpart hy spec.style.theme
  · rw [seriesAt_config_facet hactive hfacet, hpart]
    rfl

end Facets

/-- For every valid specification in which the facet stays, and every table: the
chart has one plot for each part of the table, and each plot is the single plot
of its part, moved into its grid. With axes of their own the two are equal; with
shared axes they are equal but for the bounds of values. -/
theorem facets_show_parts {spec : ChartSpec} (hvalid : spec.violations = [])
    (hactive : spec.resolution.isActive .facet = true) (rows : Table) :
    ∃ facet config, spec.facet = some facet ∧ compile spec rows = .ok config ∧
      config.IsMultiples (rows.partition facet.field).length ∧
      ∀ index part, (rows.partition facet.field)[index]? = some part →
        ∃ single,
          compile (spec.without [.facet, .dualAxis, .colorGroup]) part.2 = .ok single ∧
            config.ShowsAt index (if facet.shareAxis then Axis.unbounded else id)
              single := by
  obtain ⟨facet, hfacet⟩ := exists_facet hactive
  have hsingle : spec.single.violations = [] := violations_without _ hvalid
  refine ⟨facet, spec.config rows, hfacet, compile_eq_ok hvalid rows,
    isMultiples_config_facet hactive hfacet rows, ?_⟩
  intro index part hpart
  exact ⟨spec.single.config part.2, compile_eq_ok hsingle part.2,
    showsAt_config_facet hactive hfacet rows hpart⟩

/-- Without its error bars the crowded chart has three plots, the last of them for
the row that has no quarter. -/
theorem facets_show_parts_sales :
    (crowded.without [.errorBar]).violations = [] ∧
      (crowded.without [.errorBar]).resolution.isActive .facet = true ∧
      ∃ config, compile (crowded.without [.errorBar]) .sales = .ok config ∧
        config.IsMultiples 3 ∧ ∃ single,
          compile ((crowded.without [.errorBar]).without
            [.facet, .dualAxis, .colorGroup]) (Table.sales.drop 2) = .ok single ∧
          config.ShowsAt 2 Axis.unbounded single := by
  have hvalid := violations_without [.errorBar] violations_crowded
  have hactive : (crowded.without [.errorBar]).resolution.isActive .facet = true := by
    decide +kernel
  obtain ⟨facet, config, hfacet, hconfig, hmultiples, hparts⟩ :=
    facets_show_parts hvalid hactive .sales
  have hgiven : facet = ⟨"quarter", some 2, true, true⟩ :=
    (Option.some.inj hfacet).symm
  subst hgiven
  have hcount : (Table.sales.partition "quarter").length = 3 := by decide +kernel
  have hlast : (Table.sales.partition "quarter")[2]? =
      some ("(empty)", Table.sales.drop 2) := by cbv
  have hshown := hparts 2 _ hlast
  rw [hcount] at hmultiples
  exact ⟨hvalid, hactive, config, hconfig, hmultiples, hshown⟩

end ChartSpec

end ChartCompiler
