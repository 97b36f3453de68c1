import ChartCompiler.Proofs.ErrorBars

/-!
# What every set of series keeps

Each chart type builds its series, and the categories for their axis, in its own
way. All of them are drawn along x by their first dimension, have an entry in
each point for each dimension, and over categories label every point by one of
them. `isSound_build` says so of every request.
-/

namespace ChartCompiler

open Statistics

namespace Series

/-- Along one side the series is drawn by its first dimension, and there every
point names one of the categories. -/
structure RunsAlong (s : Series) (side : OneOrMany String) (items : List String) :
    Prop where
  dimension : ∃ first, s.dimensions.head? = some first ∧ side = .one first
  labels : ∀ p ∈ s.data, ∃ category ∈ items, p.head? = some (.text category)

/-- The points are those of the categories, one for each and in their order. -/
def Covers (s : Series) (items : List String) : Prop :=
  s.data.map List.head? = items.map fun category => some (.text category)

def isErrorBars (s : Series) : Bool :=
  s.renderItem = some "errorBar"

/-- No axes are given, so the first ones are meant. -/
def IsUnbound (s : Series) : Prop :=
  s.xAxisIndex = none ∧ s.yAxisIndex = none

/-- A series as it is built, over categories or over numbers. -/
structure IsUpright (s : Series) (categories : Option (List String)) : Prop where
  entries : ∀ p ∈ s.data, p.length = s.dimensions.length
  encoded : ∀ d ∈ s.encode.x.toList ++ s.encode.y.toList, d ∈ s.dimensions
  along : ∀ items, categories = some items → s.RunsAlong s.encode.x items

section Frames

variable {s : Series} {x : String} {others : List String} {side : OneOrMany String}
  (hdimensions : s.dimensions = x :: others) (hencode : s.encode = ⟨.one x, side⟩)
  (hside : ∀ d ∈ side.toList, d ∈ x :: others)
include hdimensions hencode hside

/-- All dimensions that drive the axes are among those of the series. -/
theorem encoded_of_frame :
    ∀ d ∈ s.encode.x.toList ++ s.encode.y.toList, d ∈ s.dimensions := by
  intro d hd
  rw [hencode] at hd
  rw [hdimensions]
  rcases List.mem_append.mp hd with hfirst | hother
  · exact List.mem_singleton.mp hfirst ▸ List.mem_cons_self
  · exact hside d hother

/-- Over numbers every point needs an entry for each dimension. -/
theorem isUpright_of_entries (hentries : ∀ p ∈ s.data, p.length = others.length + 1) :
    s.IsUpright none := by
  refine ⟨?_, encoded_of_frame hdimensions hencode hside, fun _ hnone => by cases hnone⟩
  intro p hp
  rw [hentries p hp, hdimensions, List.length_cons]

/-- Over categories every point needs one of them in front, and then an entry for
each other dimension. -/
theorem isUpright_of_labels {items : List String}
    (hpoints : ∀ p ∈ s.data, ∃ category ∈ items, ∃ values,
      p = .text category :: values ∧ values.length = others.length) :
    s.IsUpright (some items) := by
  refine ⟨?_, encoded_of_frame hdimensions hencode hside, ?_⟩
  · intro p hp
    obtain ⟨category, -, values, rfl, hlength⟩ := hpoints p hp
    rw [List.length_cons, hlength, hdimensions, List.length_cons]
  · rintro _ ⟨⟩
    refine ⟨⟨x, ?_, ?_⟩, ?_⟩
    · rw [hdimensions, List.head?_cons]
    · rw [hencode]
    · intro p hp
      obtain ⟨category, hcategory, values, rfl, -⟩ := hpoints p hp
      exact ⟨category, hcategory, rfl⟩

end Frames

/-- The second of two dimensions may drive the other axis. -/
theorem mem_second (x y : String) (more : List String) :
    ∀ d ∈ (OneOrMany.one y).toList, d ∈ x :: y :: more := by
  intro d hd
  rw [List.mem_singleton.mp hd]
  exact List.mem_cons_of_mem x List.mem_cons_self

/-- So may all dimensions but the first together. -/
theorem mem_others (x : String) (others : List String) :
    ∀ d ∈ (OneOrMany.many others).toList, d ∈ x :: others :=
  fun _ hd => List.mem_cons_of_mem x hd

end Series

/-- Every point of the categories is labelled by one of them. -/
theorem labels_categoryPoints (categories : List String) (f : String → Option Float) :
    ∀ p ∈ categoryPoints categories (categories.map f), ∃ category ∈ categories,
      ∃ values, p = .text category :: values ∧ values.length = 1 := by
  intro p hp
  rw [categoryPoints_map] at hp
  obtain ⟨category, hcategory, rfl⟩ := List.mem_map.mp hp
  exact ⟨category, hcategory, _, rfl, rfl⟩

theorem covers_categoryPoints {s : Series} {categories : List String}
    {f : String → Option Float}
    (hdata : s.data = categoryPoints categories (categories.map f)) :
    s.Covers categories := by
  unfold Series.Covers
  rw [hdata, categoryPoints_map, List.map_map]
  rfl

/-- What holds of the series of a chart type and the categories for their axis. -/
structure SeriesSet.IsSound (chartType : ChartType) (set : SeriesSet) : Prop where
  categories : set.categories.isSome = decide (chartType ≠ .scatter)
  series : ∀ s ∈ set.series, s.IsUnbound ∧ s.IsUpright set.categories
  covers : chartType.showsMeans = true → ∀ s ∈ set.series, s.isErrorBars = false →
    ∀ items, set.categories = some items → s.Covers items

namespace SeriesRequest

/-! ## Charts of means -/

theorem isUpright_means (request : SeriesRequest) (type : SeriesType) (name : String)
    (categories : List String) (f : String → Option Float) :
    (request.series type name (categoryPoints categories (categories.map f))).IsUpright
      (some categories) :=
  Series.isUpright_of_labels rfl rfl (Series.mem_second _ _ [])
    (labels_categoryPoints categories f)

section Means

variable {chartType : ChartType} (hmeans : chartType.showsMeans = true)
include hmeans

theorem ne_scatter_of_showsMeans : decide (chartType ≠ .scatter) = true := by
  cases chartType with
  | scatter => cases hmeans
  | _ => rfl

theorem isSound_wholeSeries (request : SeriesRequest) (rows : Table) :
    (request.wholeSeries rows).IsSound chartType := by
  have hdata := categoryPoints_map (rows.distinctLabels request.x.field) fun category =>
    mean? (rows.numbersAt request.x.field request.y.field category)
  refine ⟨?_, ?_, ?_⟩
  · rw [ne_scatter_of_showsMeans hmeans, categories_wholeSeries]
    rfl
  · rw [series_wholeSeries, categories_wholeSeries]
    intro s hs
    rw [List.mem_singleton.mp hs, Table.meanPoints, ← hdata]
    exact ⟨⟨rfl, rfl⟩, isUpright_means request _ _ _ _⟩
  · rw [series_wholeSeries, categories_wholeSeries]
    rintro - s hs - _ ⟨⟩
    rw [List.mem_singleton.mp hs, Table.meanPoints, ← hdata]
    exact covers_categoryPoints rfl

/-- Every group has a point for each category of all rows. -/
theorem isSound_groupedSeries (request : SeriesRequest) (group : FieldDef)
    (rows : Table) : (request.groupedSeries group rows).IsSound chartType := by
  refine ⟨?_, ?_, ?_⟩
  · rw [ne_scatter_of_showsMeans hmeans]
    rfl
  · rw [series_groupedSeries]
    intro s hs
    obtain ⟨key, -, rfl⟩ := List.mem_map.mp hs
    exact ⟨⟨rfl, rfl⟩, isUpright_means request _ _ _ _⟩
  · rw [series_groupedSeries]
    rintro - s hs - _ ⟨⟩
    obtain ⟨key, -, rfl⟩ := List.mem_map.mp hs
    exact covers_categoryPoints rfl

theorem isSound_categorySeries (request : SeriesRequest) (rows : Table) :
    (request.categorySeries rows).IsSound chartType := by
  unfold categorySeries
  cases request.group with
  | none => exact isSound_wholeSeries hmeans request rows
  | some group => exact isSound_groupedSeries hmeans request group rows

end Means

/-! ## Charts of points -/

theorem isUpright_points (request : SeriesRequest) (name : String) (rows : Table) :
    (request.series .scatter name (request.scatterPoints rows)).IsUpright none := by
  refine Series.isUpright_of_entries rfl rfl (Series.mem_second _ _ []) ?_
  intro p hp
  obtain ⟨pair, -, rfl⟩ := List.mem_map.mp hp
  rfl

theorem isUpright_trendSeries {request : SeriesRequest} {pairs : List (Float × Float)}
    {s : Series} (htrend : request.trendSeries? pairs = some s) :
    s.IsUnbound ∧ s.IsUpright none := by
  obtain ⟨line, -, rfl⟩ := Option.map_eq_some_iff.mp htrend
  refine ⟨⟨rfl, rfl⟩, Series.isUpright_of_entries rfl rfl (Series.mem_second _ _ []) ?_⟩
  intro p hp
  obtain ⟨x, -, rfl⟩ := List.mem_map.mp hp
  rfl

theorem isSound_scatterSeries (request : SeriesRequest) (rows : Table) :
    (request.scatterSeries rows).IsSound .scatter := by
  refine ⟨rfl, ?_, fun hmeans => by cases hmeans⟩
  intro s hs
  rcases List.mem_append.mp hs with hpoints | htrend
  · split at hpoints
    · rw [List.mem_singleton.mp hpoints]
      exact ⟨⟨rfl, rfl⟩, isUpright_points request _ rows⟩
    · obtain ⟨key, -, rfl⟩ := List.mem_map.mp hpoints
      exact ⟨⟨rfl, rfl⟩, isUpright_points request key _⟩
  · split at htrend
    · exact isUpright_trendSeries (Option.mem_toList.mp htrend)
    · cases htrend

/-! ## Charts of distributions -/

theorem isSound_histogramSeries (request : SeriesRequest) (rows : Table) :
    (request.histogramSeries rows).IsSound .histogram := by
  refine ⟨rfl, ?_, fun hmeans => by cases hmeans⟩
  intro s hs
  rw [List.mem_singleton.mp hs]
  refine ⟨⟨rfl, rfl⟩, Series.isUpright_of_labels rfl rfl (Series.mem_second _ _ []) ?_⟩
  intro p hp
  obtain ⟨bin, hbin, rfl⟩ := List.mem_map.mp hp
  exact ⟨binLabel bin, List.mem_map_of_mem hbin, _, rfl, rfl⟩

/-- Categories without a box are left out, from the axis as from the points. -/
theorem isSound_boxplotSeries (request : SeriesRequest) (rows : Table) :
    (request.boxplotSeries rows).IsSound .boxplot := by
  refine ⟨rfl, ?_, fun hmeans => by cases hmeans⟩
  intro s hs
  rcases List.mem_cons.mp hs with rfl | houtliers
  · refine ⟨⟨rfl, rfl⟩, Series.isUpright_of_labels rfl rfl (Series.mem_others _ _) ?_⟩
    intro p hp
    obtain ⟨⟨category, box⟩, hbox, rfl⟩ := List.mem_map.mp hp
    exact ⟨category, List.mem_map_of_mem hbox, _, rfl, rfl⟩
  · split at houtliers
    · cases houtliers
    · rw [List.mem_singleton.mp houtliers]
      refine ⟨⟨rfl, rfl⟩,
        Series.isUpright_of_labels rfl rfl (Series.mem_second _ _ []) ?_⟩
      intro p hp
      obtain ⟨⟨category, box⟩, hbox, hp⟩ := List.mem_flatMap.mp hp
      obtain ⟨value, -, rfl⟩ := List.mem_map.mp hp
      exact ⟨category, List.mem_map_of_mem hbox, _, rfl, rfl⟩

theorem isSound_violinSeries (request : SeriesRequest) (rows : Table) :
    (request.violinSeries rows).IsSound .violin := by
  refine ⟨rfl, ?_, fun hmeans => by cases hmeans⟩
  intro s hs
  rw [List.mem_singleton.mp hs]
  refine ⟨⟨rfl, rfl⟩,
    Series.isUpright_of_labels rfl rfl (Series.mem_second _ _ ["density"]) ?_⟩
  intro p hp
  obtain ⟨⟨category, curve⟩, hcurve, hp⟩ := List.mem_flatMap.mp hp
  dsimp only at hp
  rw [← List.map_uncurry_zip_eq_zipWith] at hp
  obtain ⟨entry, -, rfl⟩ := List.mem_map.mp hp
  exact ⟨category, List.mem_map_of_mem hcurve, _, rfl, rfl⟩

/-! ## Every chart type -/

theorem isSound_build (request : SeriesRequest) (rows : Table) :
    (request.build rows).IsSound request.chartType := by
  unfold build
  cases request.chartType with
  | scatter => exact isSound_scatterSeries request rows
  | histogram => exact isSound_histogramSeries request rows
  | boxplot => exact isSound_boxplotSeries request rows
  | violin => exact isSound_violinSeries request rows
  | bar | groupedBar | stackedBar | line | area | errorBar =>
      exact isSound_categorySeries rfl request rows

end SeriesRequest

end ChartCompiler
