import ChartCompiler.Proofs.SeriesSets
import ChartCompiler.Proofs.SmallMultiples

/-!
# What every plot area keeps

A plot area is sound if its axes are in order and its series fit between them.
Every area is built sound, whichever chart it is for, and stays so when it is
turned, given common bounds, placed in a grid or finished. Where it stands is
said apart, by `IsAt`.
-/

namespace ChartCompiler

/-! ## Soundness -/

/-- An axis lists categories exactly if it shows them, and bounds and a scale are
for values only. -/
structure Axis.IsSound (a : Axis) : Prop where
  categories : a.data.isSome = a.isCategory
  bounds : a.isCategory = true → a.min = none ∧ a.max = none ∧ a.scale = none

/-- Two axes show the same, whatever their fonts and their place. -/
structure Axis.Agrees (a b : Axis) : Prop where
  type : a.type = b.type
  data : a.data = b.data
  min : a.min = b.min
  max : a.max = b.max
  scale : a.scale = b.scale

/-- Two series draw the same, whatever their look and their place. -/
structure Series.Agrees (s t : Series) : Prop where
  dimensions : s.dimensions = t.dimensions
  encode : s.encode = t.encode
  data : s.data = t.data
  renderItem : s.renderItem = t.renderItem

/-- A series between two axes: its points have an entry for each dimension, and
along an axis of categories it runs by them. -/
structure Series.Fits (s : Series) (x y : Axis) : Prop where
  entries : ∀ p ∈ s.data, p.length = s.dimensions.length
  encoded : ∀ d ∈ s.encode.x.toList ++ s.encode.y.toList, d ∈ s.dimensions
  alongX : ∀ items, x.data = some items → s.RunsAlong s.encode.x items
  alongY : ∀ items, y.data = some items → s.RunsAlong s.encode.y items

/-- If the axis lists categories, then the points of the series are theirs. -/
def Series.Follows (s : Series) (a : Axis) : Prop :=
  ∀ items, a.data = some items → s.Covers items

def AxisPair.categoryCount (axes : AxisPair) : Nat :=
  axes.x.isCategory.toNat + axes.y.isCategory.toNat

structure PlotArea.IsSound (chartType : ChartType) (area : PlotArea) : Prop where
  x : area.axes.x.IsSound
  y : area.axes.y.IsSound
  categories : area.axes.categoryCount = if chartType = .scatter then 0 else 1
  series : ∀ s ∈ area.series, s.Fits area.axes.x area.axes.y
  covers : chartType.showsMeans = true → ∀ s ∈ area.series, s.isErrorBars = false →
    s.Follows area.axes.x ∧ s.Follows area.axes.y

/-- The axes of an area stand in one grid, and its series are bound to the axes of
these indices. -/
structure PlotArea.IsAt (area : PlotArea) (grid x y : Option Nat) : Prop where
  xAxis : area.axes.x.gridIndex = grid
  yAxis : area.axes.y.gridIndex = grid
  series : ∀ s ∈ area.series, s.xAxisIndex = x ∧ s.yAxisIndex = y

theorem Axis.Agrees.isCategory {a b : Axis} (h : a.Agrees b) :
    a.isCategory = b.isCategory := by
  rw [Axis.isCategory, h.type, ← Axis.isCategory]

theorem Axis.IsSound.congr {a b : Axis} (hsound : b.IsSound) (h : a.Agrees b) :
    a.IsSound := by
  refine ⟨?_, ?_⟩
  · rw [h.data, h.isCategory, hsound.categories]
  · rw [h.min, h.max, h.scale, h.isCategory]
    exact hsound.bounds

/-- A sound axis of categories lists them. -/
theorem Axis.IsSound.exists_data {a : Axis} (hsound : a.IsSound)
    (hcategory : a.isCategory = true) : ∃ items, a.data = some items := by
  rw [← Option.isSome_iff_exists, hsound.categories, hcategory]

/-- A sound axis of values has no categories. -/
theorem Axis.IsSound.data_eq_none {a : Axis} (hsound : a.IsSound)
    (hvalues : a.isCategory = false) : a.data = none := by
  have hcategories := hsound.categories
  rw [hvalues, Option.isSome_eq_false_iff] at hcategories
  exact Option.isNone_iff_eq_none.mp hcategories

theorem Series.RunsAlong.congr {s t : Series} {side : OneOrMany String}
    {items : List String} (hruns : t.RunsAlong side items) (h : s.Agrees t) :
    s.RunsAlong side items := by
  refine ⟨?_, ?_⟩
  · rw [h.dimensions]
    exact hruns.dimension
  · rw [h.data]
    exact hruns.labels

theorem Series.Fits.congr {s t : Series} {x x' y y' : Axis} (hfits : t.Fits x y)
    (h : s.Agrees t) (hx : x'.data = x.data) (hy : y'.data = y.data) : s.Fits x' y' := by
  refine ⟨?_, ?_, ?_, ?_⟩
  · rw [h.data, h.dimensions]
    exact hfits.entries
  · rw [h.encode, h.dimensions]
    exact hfits.encoded
  · rw [h.encode, hx]
    exact fun items hitems => (hfits.alongX items hitems).congr h
  · rw [h.encode, hy]
    exact fun items hitems => (hfits.alongY items hitems).congr h

/-- Exchanging the axes and the dimensions on them changes nothing between them. -/
theorem Series.Fits.swap {s : Series} {x y : Axis} (hfits : s.Fits x y) :
    s.swapEncode.Fits y x := by
  refine ⟨hfits.entries, ?_, ?_, ?_⟩
  · intro d hd
    exact hfits.encoded d (List.mem_append.mpr (List.mem_append.mp hd).symm)
  · intro items hitems
    obtain ⟨hdimension, hlabels⟩ := hfits.alongY items hitems
    exact ⟨hdimension, hlabels⟩
  · intro items hitems
    obtain ⟨hdimension, hlabels⟩ := hfits.alongX items hitems
    exact ⟨hdimension, hlabels⟩

theorem Series.Follows.congr {s t : Series} {a b : Axis} (hfollows : t.Follows a)
    (h : s.Agrees t) (ha : b.data = a.data) : s.Follows b := by
  intro items hitems
  unfold Series.Covers
  rw [h.data]
  exact hfollows items (ha ▸ hitems)

/-- Built upright, a series fits between an axis of its categories and one of
values. -/
theorem Series.IsUpright.fits {s : Series} {categories : Option (List String)}
    (hupright : s.IsUpright categories) {x y : Axis} (hx : x.data = categories)
    (hy : y.data = none) : s.Fits x y := by
  refine ⟨hupright.entries, hupright.encoded, ?_, ?_⟩
  · intro items hitems
    exact hupright.along items (hx ▸ hitems)
  · intro items hitems
    rw [hy] at hitems
    cases hitems

namespace PlotArea

/-! ## Areas as they are built -/

/-- Sound series between an axis of their categories and one of values. -/
theorem isSound_of_set {chartType : ChartType} {set : SeriesSet}
    (hset : set.IsSound chartType) {area : PlotArea} (hseries : area.series = set.series)
    (hx : area.axes.x.IsSound) (hdata : area.axes.x.data = set.categories)
    (hy : area.axes.y.IsSound) (hvalues : area.axes.y.isCategory = false) :
    area.IsSound chartType := by
  have hnone := hy.data_eq_none hvalues
  refine ⟨hx, hy, ?_, ?_, ?_⟩
  · have hcategory : area.axes.x.isCategory = decide (chartType ≠ .scatter) := by
      rw [← hx.categories, hdata, hset.categories]
    unfold AxisPair.categoryCount
    rw [hvalues, hcategory]
    by_cases hscatter : chartType = .scatter <;> simp [hscatter]
  · rw [hseries]
    exact fun s hs => (hset.series s hs).2.fits hdata hnone
  · intro hmeans s hs herror
    rw [hseries] at hs
    refine ⟨?_, ?_⟩
    · intro items hitems
      exact hset.covers hmeans s hs herror items (hdata ▸ hitems)
    · intro items hitems
      rw [hnone] at hitems
      cases hitems

theorem isSound_upright {chartType : ChartType} {set : SeriesSet}
    (hset : set.IsSound chartType) (drawn : ChartType) (encoding : Encoding) :
    (upright drawn encoding set).IsSound chartType := by
  apply isSound_of_set hset rfl
  · unfold upright AxisPair.upright
    cases set.categories with
    | none => exact ⟨rfl, fun h => by cases h⟩
    | some items => exact ⟨rfl, fun _ => ⟨rfl, rfl, rfl⟩⟩
  · unfold upright AxisPair.upright
    cases set.categories <;> rfl
  · unfold upright AxisPair.upright
    cases drawn <;> exact ⟨rfl, fun h => by cases h⟩
  · unfold upright AxisPair.upright
    cases drawn <;> rfl

theorem isAt_upright {chartType : ChartType} {set : SeriesSet}
    (hset : set.IsSound chartType) (drawn : ChartType) (encoding : Encoding) :
    (upright drawn encoding set).IsAt none none none := by
  refine ⟨?_, ?_, fun s hs => (hset.series s hs).1⟩
  · unfold upright AxisPair.upright
    cases set.categories <;> rfl
  · unfold upright AxisPair.upright
    cases drawn <;> rfl

end PlotArea

/-! ## Areas with error bars -/

namespace ErrorBarChart

/-- The means and the bars over them, as a set of series. -/
def seriesSet (chartType : ChartType) (encoding : Encoding) (e : ErrorBar)
    (rows : Table) : SeriesSet where
  categories := some (rows.groupValues encoding.x.field encoding.y.field).keys
  series := (build chartType encoding e rows).area.series
  extent := none

/-- The area is the upright one of that set. -/
theorem area_build (chartType : ChartType) (encoding : Encoding) (e : ErrorBar)
    (rows : Table) :
    (build chartType encoding e rows).area =
      .upright .errorBar encoding (seriesSet chartType encoding e rows) := rfl

/-- The bars follow the categories but leave out those without numbers, so only
the means cover them all. -/
theorem isSound_seriesSet {chartType : ChartType} (hchart : chartType ≠ .scatter)
    (encoding : Encoding) (e : ErrorBar) (rows : Table) :
    (seriesSet chartType encoding e rows).IsSound chartType := by
  refine ⟨(decide_eq_true hchart).symm, ?_, ?_⟩
  · intro s hs
    rcases List.mem_cons.mp hs with rfl | hs
    · refine ⟨⟨rfl, rfl⟩, Series.isUpright_of_labels rfl rfl (Series.mem_second _ _ []) ?_⟩
      intro p hp
      obtain ⟨⟨category, numbers⟩, hgroup, rfl⟩ := List.mem_map.mp hp
      exact ⟨category, List.mem_map_of_mem hgroup, _, rfl, rfl⟩
    · rw [List.mem_singleton.mp hs]
      refine ⟨⟨rfl, rfl⟩, Series.isUpright_of_labels rfl rfl (Series.mem_others _ _) ?_⟩
      intro p hp
      obtain ⟨point, hpoint, rfl⟩ := List.mem_map.mp hp
      obtain ⟨⟨category, numbers⟩, hgroup, hof⟩ := List.mem_filterMap.mp hpoint
      rw [ErrorBarPoint.category_of_of? hof]
      exact ⟨category, List.mem_map_of_mem hgroup, _, rfl, rfl⟩
  · rintro - s hs hmeans _ ⟨⟩
    rcases List.mem_cons.mp hs with rfl | hs
    · unfold Series.Covers Groups.keys
      rw [List.map_map]
      exact List.map_map
    · rw [List.mem_singleton.mp hs] at hmeans
      cases hmeans

end ErrorBarChart

/-! ## Areas over a secondary axis -/

namespace DualAxis

/-- The line as a set of series over the categories of the chart. -/
def seriesSet (x y2 : FieldDef) (categories : List String) (rows : Table) : SeriesSet where
  categories := some categories
  series := [.plain .line y2.displayName [x.field, y2.field] (.pair x.field y2.field)
    (categoryPoints categories (meansFor categories (rows.groupValues x.field y2.field)))]
  extent := none

theorem isSound_seriesSet {chartType : ChartType}
    (hmeans : chartType.showsMeans = true) (x y2 : FieldDef) (categories : List String)
    (rows : Table) : (seriesSet x y2 categories rows).IsSound chartType := by
  refine ⟨(SeriesRequest.ne_scatter_of_showsMeans hmeans).symm, ?_, ?_⟩
  · intro s hs
    rw [List.mem_singleton.mp hs]
    exact ⟨⟨rfl, rfl⟩, Series.isUpright_of_labels rfl rfl (Series.mem_second _ _ [])
      (labels_categoryPoints categories _)⟩
  · rintro - s hs - _ ⟨⟩
    rw [List.mem_singleton.mp hs]
    exact covers_categoryPoints rfl

end DualAxis

namespace PlotArea

/-! ## Areas changed part by part -/

/-- The area with its axes, one by one, and all its series changed. -/
def mapParts (onX onY : Axis → Axis) (g : Series → Series) (area : PlotArea) :
    PlotArea where
  axes := ⟨onX area.axes.x, onY area.axes.y⟩
  series := area.series.map g

section Changes

variable {chartType : ChartType} {area : PlotArea} (hsound : area.IsSound chartType)
include hsound

/-- An area stays sound if its axes show and its series draw the same. -/
theorem IsSound.mapParts {onX onY : Axis → Axis} {g : Series → Series}
    (hx : ∀ a, (onX a).Agrees a) (hy : ∀ a, (onY a).Agrees a)
    (hg : ∀ s, (g s).Agrees s) : (area.mapParts onX onY g).IsSound chartType := by
  refine ⟨hsound.x.congr (hx _), hsound.y.congr (hy _), ?_, ?_, ?_⟩
  · rw [← hsound.categories]
    unfold AxisPair.categoryCount PlotArea.mapParts
    rw [(hx _).isCategory, (hy _).isCategory]
  · intro s hs
    obtain ⟨t, ht, rfl⟩ := List.mem_map.mp hs
    exact (hsound.series t ht).congr (hg t) (hx _).data (hy _).data
  · intro hmeans s hs herror
    obtain ⟨t, ht, rfl⟩ := List.mem_map.mp hs
    rw [Series.isErrorBars, (hg t).renderItem, ← Series.isErrorBars] at herror
    obtain ⟨hfirst, hsecond⟩ := hsound.covers hmeans t ht herror
    exact ⟨hfirst.congr (hg t) (hx _).data, hsecond.congr (hg t) (hy _).data⟩

theorem IsSound.turn : area.turn.IsSound chartType := by
  refine ⟨hsound.y, hsound.x, ?_, ?_, ?_⟩
  · rw [← hsound.categories]
    exact Nat.add_comm _ _
  · intro s hs
    obtain ⟨t, ht, rfl⟩ := List.mem_map.mp hs
    exact (hsound.series t ht).swap
  · intro hmeans s hs herror
    obtain ⟨t, ht, rfl⟩ := List.mem_map.mp hs
    exact (hsound.covers hmeans t ht herror).symm

theorem IsSound.oriented (horizontal : Bool) : (area.oriented horizontal).IsSound chartType := by
  cases horizontal with
  | false => exact hsound
  | true => exact hsound.turn

/-- Bounds are common to axes of values only. -/
theorem IsSound.shareBounds (hvalues : area.axes.y.isCategory = false)
    (drawn : ChartType) (shared : Option (Float × Float)) :
    (FacetChart.shareBounds drawn shared area).IsSound chartType := by
  rcases FacetChart.shareBounds_eq drawn shared area with heq | ⟨low, high, heq⟩
  · rw [heq]
    exact hsound
  · rw [heq]
    refine ⟨hsound.x, ⟨hsound.y.categories, ?_⟩, hsound.categories, ?_, ?_⟩
    · intro hcategory
      exact absurd hvalues (Bool.not_eq_false _ ▸ hcategory)
    · intro s hs
      have hfits := hsound.series s hs
      exact ⟨hfits.entries, hfits.encoded, hfits.alongX, hfits.alongY⟩
    · exact fun hmeans s hs herror => hsound.covers hmeans s hs herror

theorem IsSound.bind (index : Nat) : (area.bind index).IsSound chartType :=
  have hgrid (a : Axis) : (a.inGrid index).Agrees a := ⟨rfl, rfl, rfl, rfl, rfl⟩
  hsound.mapParts hgrid hgrid fun s => (⟨rfl, rfl, rfl, rfl⟩ : (s.bindAxes index).Agrees s)

end Changes

/-! ## Places -/

/-- An area stays where it is if its axes and its series do. -/
theorem IsAt.mapParts {area : PlotArea} {grid x y : Option Nat}
    (hat : area.IsAt grid x y) {onX onY : Axis → Axis} {g : Series → Series}
    (hx : ∀ a, (onX a).gridIndex = a.gridIndex)
    (hy : ∀ a, (onY a).gridIndex = a.gridIndex)
    (hg : ∀ s, (g s).xAxisIndex = s.xAxisIndex ∧ (g s).yAxisIndex = s.yAxisIndex) :
    (area.mapParts onX onY g).IsAt grid x y := by
  refine ⟨(hx _).trans hat.xAxis, (hy _).trans hat.yAxis, ?_⟩
  intro s hs
  obtain ⟨t, ht, rfl⟩ := List.mem_map.mp hs
  rw [(hg t).1, (hg t).2]
  exact hat.series t ht

theorem IsAt.turn {area : PlotArea} {grid index : Option Nat}
    (hat : area.IsAt grid index index) : area.turn.IsAt grid index index := by
  refine ⟨hat.yAxis, hat.xAxis, ?_⟩
  intro s hs
  obtain ⟨t, ht, rfl⟩ := List.mem_map.mp hs
  exact hat.series t ht

theorem IsAt.oriented {area : PlotArea} {grid index : Option Nat}
    (hat : area.IsAt grid index index) (horizontal : Bool) :
    (area.oriented horizontal).IsAt grid index index := by
  cases horizontal with
  | false => exact hat
  | true => exact hat.turn

theorem isAt_bind (index : Nat) (area : PlotArea) :
    (area.bind index).IsAt (some index) (some index) (some index) := by
  refine ⟨rfl, rfl, ?_⟩
  intro s hs
  obtain ⟨t, -, rfl⟩ := List.mem_map.mp hs
  exact ⟨rfl, rfl⟩

end PlotArea

/-! ## Finished areas -/

namespace ChartSpec

def dress (spec : ChartSpec) (horizontal : Bool) : PlotArea → PlotArea :=
  PlotArea.mapParts (Axis.fillFonts spec.style.theme) (Axis.fillFonts spec.style.theme)
    (spec.finish horizontal)

theorem isSound_dress (spec : ChartSpec) (horizontal : Bool) {chartType : ChartType}
    {area : PlotArea} (hsound : area.IsSound chartType) :
    (spec.dress horizontal area).IsSound chartType := by
  have hfonts (a : Axis) : (a.fillFonts spec.style.theme).Agrees a :=
    ⟨rfl, rfl, rfl, rfl, rfl⟩
  apply hsound.mapParts hfonts hfonts
  intro s
  rw [finish_eq]
  exact ⟨rfl, rfl, rfl, rfl⟩

theorem isAt_dress (spec : ChartSpec) (horizontal : Bool) {area : PlotArea}
    {grid x y : Option Nat} (hat : area.IsAt grid x y) :
    (spec.dress horizontal area).IsAt grid x y := by
  have hfonts (a : Axis) : (a.fillFonts spec.style.theme).gridIndex = a.gridIndex := rfl
  apply hat.mapParts hfonts hfonts
  intro s
  rw [finish_eq]
  exact ⟨rfl, rfl⟩

end ChartSpec

end ChartCompiler
