import ChartCompiler.Proofs.Extents
import ChartCompiler.Proofs.SmallMultiples

/-!
# Shared axes

Small multiples may share the bounds of their axes of values, so that their marks can be
compared. The bounds then cover what every cell draws: `shared_axes_cover` says so of all
chart types whose values are not fitted.
-/

namespace ChartCompiler

open Double Statistics

/-! ## Axes of values -/

namespace AxisPair

/-- The axis along which values are drawn: y, or x when bars grow sideways. -/
def measuring (horizontal : Bool) (axes : AxisPair) : Axis :=
  if horizontal then axes.x else axes.y

def carrying (horizontal : Bool) (axes : AxisPair) : Axis :=
  if horizontal then axes.y else axes.x

end AxisPair

def PlotArea.measured (area : PlotArea) : List Float :=
  area.series.flatMap Series.measured

def Axis.Runs (axis : Axis) (low high : Option Float) : Prop :=
  axis.min = low ∧ axis.max = high

namespace FacetChart

/-- An area's values are those of its set of series, wherever it is placed. -/
theorem measured_placed (chartType : ChartType) (shared : Option (Float × Float))
    (horizontal : Bool) (index : Nat) (area : PlotArea) :
    (((shareBounds chartType shared area).oriented horizontal).bind index).measured =
      area.measured := by
  unfold PlotArea.measured PlotArea.bind PlotArea.oriented PlotArea.turn
  cases horizontal with
  | false =>
      rw [if_neg Bool.false_ne_true, series_shareBounds, List.flatMap_map]
      rfl
  | true =>
      rw [if_pos rfl, series_shareBounds, List.flatMap_map, List.flatMap_map]
      rfl

/-- Shared bounds stand on the axis of values, and no others do. -/
theorem runs_placed (chartType : ChartType) (extent : Float × Float) (encoding : Encoding)
    (set : SeriesSet) (horizontal : Bool) (index : Nat) :
    let axes := (((shareBounds chartType (some extent)
      (.upright chartType encoding set)).oriented horizontal).bind index).axes
    (axes.measuring horizontal).Runs (some (axisBounds chartType extent).1)
        (some (axisBounds chartType extent).2) ∧
      (axes.carrying horizontal).Runs none none := by
  obtain ⟨categories, series, own⟩ := set
  cases horizontal <;> cases categories <;> exact ⟨⟨rfl, rfl⟩, ⟨rfl, rfl⟩⟩

/-- The line on which bars stand, for charts of bars. -/
def zeroLine (chartType : ChartType) : List Float :=
  if chartType.isBar then [0] else []

/-- The bounds of an axis are the extent of its values and of the zero line of bars. -/
theorem isExtent_axisBounds (chartType : ChartType) {extent : Float × Float}
    {values : List Float} (hextent : IsExtent extent values) :
    IsExtent (axisBounds chartType extent) (values ++ zeroLine chartType) := by
  unfold axisBounds zeroLine
  by_cases hbar : chartType.isBar = true
  · have hnumber : (0 : Float).isNaN = false := rfl
    have hzero := hextent.append (.single hnumber)
    dsimp only at hzero
    rw [if_pos hbar, if_pos hbar]
    exact hzero
  · rw [if_neg hbar, if_neg hbar, List.append_nil]
    exact hextent

theorem length_part_le {rows : Table} {field : String} {part : String × List Row}
    (hpart : part ∈ rows.partition field) : part.2.length ≤ rows.length := by
  have hsublist : part.2.Sublist ((rows.partition field).flatMap Prod.snd) :=
    List.sublist_flatten_of_mem (List.mem_map_of_mem hpart)
  rw [← (rows.partition_perm field).length_eq]
  exact hsublist.length_le

def drawn (areas : List PlotArea) : List Float :=
  areas.flatMap PlotArea.measured

/-- They are those of the sets of series of all cells. -/
theorem drawn_areas (chartType : ChartType) (encoding : Encoding) (facet : Facet)
    (rows : Table) (horizontal trendline : Bool) :
    drawn (build chartType encoding facet rows horizontal trendline).areas =
      (rows.partition facet.field).flatMap fun part =>
        ((cellRequest chartType encoding trendline).build part.2).measured := by
  rw [drawn, areas_eq, List.mapIdx_eq_zipIdx_map, List.flatMap_map]
  simp only [measured_placed]
  conv_rhs => rw [← List.zipIdx_map_fst 0 (rows.partition facet.field), List.flatMap_map]
  rfl

/-- For every table, every chart type but the violin and either orientation: once a cell
draws a value, the axes of values of all cells have the same bounds and the other axes
have none; the bounds cover each value that a cell draws, and zero if bars are drawn, and
go no further. No table in memory has `2 ^ 63` rows. -/
theorem shared_axes_cover {chartType : ChartType} (hviolin : chartType ≠ .violin)
    (encoding : Encoding) {facet : Facet} (hshare : facet.shareAxis = true)
    {rows : Table} (hrows : rows.length < 2 ^ 63) (horizontal : Bool)
    (hdrawn : drawn (build chartType encoding facet rows horizontal false).areas ≠ []) :
    let areas := (build chartType encoding facet rows horizontal false).areas
    ∃ low high,
      (∀ area ∈ areas,
        (area.axes.measuring horizontal).Runs (some low) (some high) ∧
          (area.axes.carrying horizontal).Runs none none ∧
          ∀ v ∈ area.measured, low ≤ v ∧ v ≤ high) ∧
      (chartType.isBar = true → low ≤ 0 ∧ 0 ≤ high) ∧
      low ∈ drawn areas ++ zeroLine chartType ∧ high ∈ drawn areas ++ zeroLine chartType := by
  let sets := cellSets chartType encoding false (rows.partition facet.field)
  have hspans : Spans (sharedExtent? sets) ((rows.partition facet.field).flatMap fun part =>
      ((cellRequest chartType encoding false).build part.2).measured) :=
    spans_sharedExtent? fun part hpart =>
      SeriesRequest.spans_build _ ((length_part_le hpart).trans_lt hrows) hviolin rfl rfl
  rw [drawn_areas] at hdrawn
  obtain ⟨extent, hextent⟩ : ∃ extent, sharedExtent? sets = some extent := by
    cases hfound : sharedExtent? sets with
    | none =>
        rw [hfound] at hspans
        exact absurd hspans hdrawn
    | some extent => exact ⟨extent, rfl⟩
  rw [hextent] at hspans
  have hbounds := isExtent_axisBounds chartType hspans
  have hcover (v : Float) (hv : v ∈ _ ++ zeroLine chartType) :=
    And.intro (hbounds.low_le v hv) (hbounds.le_high v hv)
  intro areas
  refine ⟨(axisBounds chartType extent).1, (axisBounds chartType extent).2, ?_, ?_, ?_, ?_⟩
  · intro area harea
    have hvalues : ∀ v ∈ area.measured, v ∈ drawn areas :=
      fun v hv => List.mem_flatMap.mpr ⟨area, harea, hv⟩
    rw [drawn_areas] at hvalues
    have hplaced : (area.axes.measuring horizontal).Runs
        (some (axisBounds chartType extent).1) (some (axisBounds chartType extent).2) ∧
        (area.axes.carrying horizontal).Runs none none := by
      rw [show areas = _ from areas_eq .., hshare, if_pos rfl, hextent] at harea
      obtain ⟨index, hindex, rfl⟩ := List.mem_mapIdx.mp harea
      exact runs_placed chartType extent encoding _ horizontal index
    exact ⟨hplaced.1, hplaced.2,
      fun v hv => hcover v (List.mem_append_left _ (hvalues v hv))⟩
  · intro hbar
    apply hcover
    rw [zeroLine, if_pos hbar]
    exact List.mem_append_right _ (List.mem_singleton_self 0)
  · rw [drawn_areas]
    exact hbounds.low_mem
  · rw [drawn_areas]
    exact hbounds.high_mem

/-- Sideways bars of the sales by quarter: one cell draws nothing, and the other two
share their axis. -/
theorem shared_axes_cover_sales :
    ChartType.bar ≠ .violin ∧ Table.sales.length < 2 ^ 63 ∧
      drawn (build .bar ChartSpec.crowded.encoding ⟨"quarter", some 2, true, true⟩ .sales true
        false).areas ≠ [] ∧
      ∃ low high, low ≤ 0 ∧ 0 ≤ high ∧
        ∀ area ∈ (build .bar ChartSpec.crowded.encoding ⟨"quarter", some 2, true, true⟩ .sales
          true false).areas,
          area.axes.x.Runs (some low) (some high) ∧ area.axes.y.Runs none none ∧
            ∀ v ∈ area.measured, low ≤ v ∧ v ≤ high := by
  have hviolin : ChartType.bar ≠ .violin := by decide
  have hrows : Table.sales.length < 2 ^ 63 := by decide
  have hdrawn : drawn (build .bar ChartSpec.crowded.encoding ⟨"quarter", some 2, true, true⟩
      .sales true false).areas ≠ [] := by
    decide +kernel
  have hshare : (Facet.mk "quarter" (some 2) true true).shareAxis = true := rfl
  obtain ⟨low, high, hareas, hzero, -⟩ :=
    shared_axes_cover hviolin ChartSpec.crowded.encoding hshare hrows true hdrawn
  exact ⟨hviolin, hrows, hdrawn, low, high, (hzero rfl).1, (hzero rfl).2, hareas⟩

/-! ## Fitted lines -/

section Fits

variable (encoding : Encoding) (rows : Table)

def pointHeights : List Float :=
  (rows.numberPairs encoding.x.field encoding.y.field).map Prod.snd

/-- The fitted line is left out of a scatter chart's extent. -/
theorem spans_scatterSeries_points (trendline : Bool) :
    Spans ((cellRequest .scatter encoding trendline).build rows).extent
      (pointHeights encoding rows) := by
  apply spans_extent?
  intro v hv
  obtain ⟨pair, hpair, rfl⟩ := List.mem_map.mp hv
  exact isNaN_of_isFinite (Table.isFinite_of_mem_numberPairs hpair).2

/-- Each point stands in one cell. -/
theorem mem_pointHeights_iff (field : String) (v : Float) :
    v ∈ pointHeights encoding rows ↔
      v ∈ (rows.partition field).flatMap fun part => pointHeights encoding part.2 := by
  have hsame : (pointHeights encoding ((rows.partition field).flatMap Prod.snd)).Perm
      (pointHeights encoding rows) :=
    ((rows.partition_perm field).filterMap _).map _
  rw [pointHeights, Table.numberPairs, List.filterMap_flatMap, List.map_flatMap] at hsame
  exact hsame.mem_iff.symm

theorem spans_sharedExtent?_points (field : String) (trendline : Bool) :
    Spans (sharedExtent? (cellSets .scatter encoding trendline (rows.partition field)))
      (pointHeights encoding rows) :=
  (spans_sharedExtent? fun part _ =>
    spans_scatterSeries_points encoding part.2 trendline).congr fun v =>
      (mem_pointHeights_iff encoding rows field v).symm

/-- Only the line fitted to the points is drawn as a line among them. -/
theorem line_of_mem_scatterSeries {request : SeriesRequest} {s : Series}
    (hs : s ∈ (request.scatterSeries rows).series) (htype : s.type = .line) :
    request.trendSeries? (rows.numberPairs request.x.field request.y.field) = some s := by
  obtain hpoints | htrend := List.mem_append.mp hs
  · split at hpoints
    · obtain rfl := List.mem_singleton.mp hpoints
      cases htype
    · obtain ⟨key, -, rfl⟩ := List.mem_map.mp hpoints
      cases htype
  · split at htrend
    · exact Option.mem_toList.mp htrend
    · exact nomatch htrend

/-- It is drawn from the least to the greatest first coordinate. -/
theorem measured_trendSeries? {request : SeriesRequest} {pairs : List (Float × Float)}
    {s : Series} (hs : request.trendSeries? pairs = some s) :
    ∃ line, fit? pairs = some line ∧
      s.measured = [line.height (least (pairs.map Prod.fst)),
        line.height (greatest (pairs.map Prod.fst))] := by
  obtain ⟨line, hline, rfl⟩ := Option.map_eq_some_iff.mp hs
  exact ⟨line, hline, rfl⟩

end Fits

theorem mem_placed {chartType : ChartType} {shared : Option (Float × Float)}
    {horizontal : Bool} {index : Nat} {area : PlotArea} {s : Series}
    (hs : s ∈ (((shareBounds chartType shared area).oriented horizontal).bind index).series) :
    ∃ original ∈ area.series, original.type = s.type ∧ original.measured = s.measured := by
  obtain ⟨turned, hturned, rfl⟩ := List.mem_map.mp hs
  unfold PlotArea.oriented PlotArea.turn at hturned
  cases horizontal with
  | false =>
      rw [if_neg Bool.false_ne_true, series_shareBounds] at hturned
      exact ⟨turned, hturned, rfl, rfl⟩
  | true =>
      rw [if_pos rfl, series_shareBounds] at hturned
      obtain ⟨original, horiginal, rfl⟩ := List.mem_map.mp hturned
      exact ⟨original, horiginal, rfl, rfl⟩

/-- In scatter charts with fitted lines and shared axes, each line is fitted to the points
of one cell. Its ends lie within the bounds of their axis exactly if each lies between the
heights of two points, of whatever cells: the bounds are made of the points alone. -/
theorem fit_within_axis_iff (encoding : Encoding) {facet : Facet}
    (hshare : facet.shareAxis = true) (rows : Table) (horizontal : Bool)
    {area : PlotArea}
    (harea : area ∈ (build .scatter encoding facet rows horizontal true).areas)
    {s : Series} (hs : s ∈ area.series) (htype : s.type = .line) :
    (∃ part ∈ rows.partition facet.field, ∃ line,
      let pairs := Table.numberPairs part.2 encoding.x.field encoding.y.field
      fit? pairs = some line ∧
        s.measured = [line.height (least (pairs.map Prod.fst)),
          line.height (greatest (pairs.map Prod.fst))]) ∧
      ((∃ low high, (area.axes.measuring horizontal).Runs (some low) (some high) ∧
          ∀ h ∈ s.measured, low ≤ h ∧ h ≤ high) ↔
        ∀ h ∈ s.measured, (∃ v ∈ pointHeights encoding rows, v ≤ h) ∧
          ∃ v ∈ pointHeights encoding rows, h ≤ v) := by
  have hspans := spans_sharedExtent?_points encoding rows facet.field true
  rw [areas_eq, hshare, if_pos rfl] at harea
  obtain ⟨index, hindex, rfl⟩ := List.mem_mapIdx.mp harea
  set part := (rows.partition facet.field)[index]
  have hpart : part ∈ rows.partition facet.field := List.getElem_mem hindex
  obtain ⟨original, horiginal, hkind, hmeasured⟩ := mem_placed hs
  change original ∈ ((cellRequest .scatter encoding true).scatterSeries part.2).series
    at horiginal
  have htrend := line_of_mem_scatterSeries part.2 horiginal (hkind.trans htype)
  obtain ⟨line, hline, hends⟩ := measured_trendSeries? htrend
  rw [hmeasured] at hends
  refine ⟨⟨part, hpart, line, hline, hends⟩, ?_⟩
  cases hextent : sharedExtent? (cellSets .scatter encoding true
      (rows.partition facet.field)) with
  | none =>
      -- Without points in any cell there would be no line.
      rw [hextent] at hspans
      have hnone : pointHeights encoding part.2 = [] :=
        List.eq_nil_iff_forall_not_mem.mpr fun v hv => by
          have hmem := (mem_pointHeights_iff encoding rows facet.field v).mpr
            (List.mem_flatMap.mpr ⟨part, hpart, hv⟩)
          rw [show pointHeights encoding rows = [] from hspans] at hmem
          exact nomatch hmem
      have hpairs : Table.numberPairs part.2 encoding.x.field encoding.y.field = [] :=
        List.map_eq_nil_iff.mp hnone
      change fit? (Table.numberPairs part.2 encoding.x.field encoding.y.field) = _ at hline
      rw [hpairs] at hline
      cases hline
  | some extent =>
      rw [hextent] at hspans
      have hbounds : IsExtent extent (pointHeights encoding rows) := hspans
      obtain ⟨⟨hlow, hhigh⟩, -⟩ := runs_placed .scatter extent encoding
        ((cellRequest .scatter encoding true).build part.2) horizontal index
      constructor
      · rintro ⟨low, high, ⟨hlow', hhigh'⟩, hwithin⟩ h hend
        obtain rfl := Option.some.inj (hlow.symm.trans hlow')
        obtain rfl := Option.some.inj (hhigh.symm.trans hhigh')
        obtain ⟨hle, hge⟩ := hwithin h hend
        exact ⟨⟨extent.1, hbounds.low_mem, hle⟩, ⟨extent.2, hbounds.high_mem, hge⟩⟩
      · intro hbetween
        refine ⟨extent.1, extent.2, ⟨hlow, hhigh⟩, fun h hend => ?_⟩
        obtain ⟨⟨v, hv, hle⟩, ⟨w, hw, hge⟩⟩ := hbetween h hend
        exact ⟨le_of_le_of_le (hbounds.low_le v hv) hle,
          le_of_le_of_le hge (hbounds.le_high w hw)⟩

/-- Distances that a runner has covered by some hours. -/
def strides (runner : String) (points : List (Int × Int)) : Table :=
  points.map fun point => [("distance", .number (.integer point.2)),
    ("hour", .number (.integer point.1)), ("runner", .string runner)]

def pace : Encoding where
  x := ⟨"hour", .quantitative, none⟩
  y := ⟨"distance", .quantitative, none⟩
  y2 := none
  color := none

/-- A second runner's points make room for the line of the first. -/
theorem fit_within_axis_iff_strides :
    ∃ area ∈ (build .scatter pace ⟨"runner", none, true, true⟩
        (strides "a" [(0, 0), (1, 10), (2, 10)] ++ strides "b" [(0, -5), (2, 15)])
        false true).areas,
      ∃ s ∈ area.series, s.type = .line ∧ ∃ low high,
        area.axes.y.Runs (some low) (some high) ∧ ∀ h ∈ s.measured, low ≤ h ∧ h ≤ high := by
  let rows := strides "a" [(0, 0), (1, 10), (2, 10)] ++ strides "b" [(0, -5), (2, 15)]
  obtain ⟨area, harea, s, hs, htype, hbetween⟩ :
      ∃ area ∈ (build .scatter pace ⟨"runner", none, true, true⟩ rows false true).areas,
        ∃ s ∈ area.series, s.type = .line ∧ ∀ h ∈ s.measured,
          (∃ v ∈ pointHeights pace rows, v ≤ h) ∧ ∃ v ∈ pointHeights pace rows, h ≤ v := by
    decide +kernel
  obtain ⟨-, hwithin⟩ := fit_within_axis_iff pace rfl rows false harea hs htype
  exact ⟨area, harea, s, hs, htype, hwithin.mpr hbetween⟩

/-- Alone, the first runner's line ends above the axis. -/
theorem fit_beyond_axis_strides :
    ∃ area ∈ (build .scatter pace ⟨"runner", none, true, true⟩
        (strides "a" [(0, 0), (1, 10), (2, 10)]) false true).areas,
      ∃ s ∈ area.series, s.type = .line ∧
        area.axes.y.Runs (some 0) (some 10) ∧ ∃ h ∈ s.measured, 10 < h := by
  unfold Axis.Runs
  decide +kernel

end FacetChart

end ChartCompiler
