import ChartCompiler.Plot.DualAxis
import ChartCompiler.Proofs.ErrorBars
import ChartCompiler.Proofs.Magnitudes
import ChartCompiler.Proofs.SharedAxes

/-!
# Numbers that series draw

Where the cells of a table hold numbers of moderate size, every series that is built from
it is free of infinities and NaN: means, fitted lines, boxes, error bars and the extents
of axes. Violins and confidence intervals are left out, since exponential functions and
logarithms are not computed here.
-/

namespace ChartCompiler

open Double Statistics

/-! ## Tables of moderate numbers -/

namespace Double

/-- At most `2 ^ 256` in magnitude, which is about `10 ^ 77`. -/
def IsModerate (x : Float) : Prop :=
  Float.abs x ≤ Float.ofNat (2 ^ 256)

instance : DecidablePred IsModerate :=
  fun x => inferInstanceAs (Decidable (Float.abs x ≤ Float.ofNat (2 ^ 256)))

theorem IsModerate.bounded {x : Float} (hx : IsModerate x) : Bounded x 256 := by
  have hpow : ((2 ^ 256 : ℕ) : ℝ) = 2 ^ 256 := by norm_num
  obtain ⟨hlimit, hreal⟩ := (rounds_ofNat (2 ^ 256)).exact
    (by rw [hpow]; exact isDouble_pow 256)
    (by rw [hpow, abs_of_nonneg (by positivity)]; exact pow_lt_limit (by norm_num))
  have hfinite := isFinite_of_abs_le hlimit hx
  refine ⟨hfinite, ?_⟩
  rw [← real_abs, ← hpow, ← hreal]
  exact (real_le_real_iff (by rw [isFinite_abs, hfinite]) hlimit).mp hx

end Double

theorem Json.Members.mem_of_get? {name : String} {value : Json} {members : Members}
    (hvalue : members.get? name = some value) : (name, value) ∈ members := by
  induction members with
  | nil => cases hvalue
  | cons member rest ih =>
      rw [get?] at hvalue
      split_ifs at hvalue with hname
      · obtain rfl := Option.some.inj hvalue
        rw [← hname]
        exact List.mem_cons_self
      · exact List.mem_cons_of_mem member (ih hvalue)

namespace Table

/-- The numbers in the cells are of moderate size, and there are not more rows than any
data set has. -/
structure IsModerate (rows : Table) : Prop where
  cells : ∀ row ∈ rows, ∀ cell ∈ row, ∀ v ∈ Row.number? row cell.1, Double.IsModerate v
  length_le : rows.length ≤ 2 ^ 50

namespace IsModerate

variable {rows : Table}

theorem part (hrows : rows.IsModerate) {part : Table} (hsub : ∀ row ∈ part, row ∈ rows)
    (hlength : part.length ≤ rows.length) : part.IsModerate :=
  ⟨fun row hrow => hrows.cells row (hsub row hrow), hlength.trans hrows.length_le⟩

theorem withLabel (hrows : rows.IsModerate) (field label : String) :
    (rows.withLabel field label).IsModerate :=
  hrows.part (fun _ hrow => List.mem_of_mem_filter hrow) (List.length_filter_le _ _)

theorem of_mem_partition (hrows : rows.IsModerate) {field : String}
    {part : String × List Row} (hpart : part ∈ rows.partition field) :
    IsModerate part.2 := by
  refine hrows.part (fun row hrow => ?_) (FacetChart.length_part_le hpart)
  exact (rows.partition_perm field).mem_iff.mp (List.mem_flatMap.mpr ⟨part, hpart, hrow⟩)

variable (hrows : rows.IsModerate)
include hrows

theorem bounded_number? {row : Row} (hrow : row ∈ rows) {field : String} {v : Float}
    (hv : row.number? field = some v) : Bounded v 256 := by
  have hcell : ∃ value, row.get? field = some value := by
    by_contra hnone
    rw [Row.number?, Option.eq_none_iff_forall_ne_some.mpr (not_exists.mp hnone)] at hv
    cases hv
  obtain ⟨value, hvalue⟩ := hcell
  exact (hrows.cells row hrow _ (Json.Members.mem_of_get? hvalue) v hv).bounded

theorem bounded_of_mem_numbersAt {x y label : String} :
    ∀ v ∈ rows.numbersAt x y label, Bounded v 256 := by
  intro v hv
  obtain ⟨row, hrow, hnumber⟩ := List.mem_filterMap.mp hv
  exact hrows.bounded_number? (List.mem_of_mem_filter hrow) hnumber

theorem length_numbersAt (x y label : String) : (rows.numbersAt x y label).length ≤ 2 ^ 50 :=
  (rows.length_numbersAt_le x y label).trans hrows.length_le

theorem bounded_of_mem_numberPairs {x y : String} :
    ∀ pair ∈ rows.numberPairs x y, Bounded pair.1 256 ∧ Bounded pair.2 256 := by
  intro pair hpair
  obtain ⟨row, hrow, hnumbers⟩ := List.mem_filterMap.mp hpair
  split at hnumbers
  · next a b ha hb =>
      obtain rfl := Option.some.inj hnumbers
      exact ⟨hrows.bounded_number? hrow ha, hrows.bounded_number? hrow hb⟩
  · cases hnumbers

theorem length_numberPairs (x y : String) : (rows.numberPairs x y).length ≤ 2 ^ 50 :=
  (List.length_filterMap_le _ _).trans hrows.length_le

/-- The mean of a category is finite, where there is one. -/
theorem isFinite_mean {x y label : String} {mean : Float}
    (hmean : mean? (rows.numbersAt x y label) = some mean) : mean.isFinite = true :=
  (bounded_mean? hrows.bounded_of_mem_numbersAt hmean
    ((hrows.length_numbersAt x y label).trans (by norm_num)) (by norm_num)).isFinite

end IsModerate

end Table

/-! ## Series -/

/-- All numbers that the point draws are finite, counts among them. -/
def Point.IsFinite (p : Point) : Prop :=
  ∀ d ∈ p, ∀ v, d.value? = some v → v.isFinite = true

namespace Point.IsFinite

theorem numbers (values : List Float) (hvalues : ∀ v ∈ values, v.isFinite = true) :
    Point.IsFinite (values.map .number) := by
  intro d hd v hv
  obtain ⟨w, hw, rfl⟩ := List.mem_map.mp hd
  obtain rfl := Option.some.inj hv
  exact hvalues _ hw

theorem labelled (category : String) {p : Point} (hp : p.IsFinite) :
    Point.IsFinite (.text category :: p) := by
  intro d hd v hv
  rcases List.mem_cons.mp hd with rfl | hrest
  · cases hv
  · exact hp d hrest v hv

theorem ofNumber? {x : Option Float} (hx : ∀ v ∈ x, v.isFinite = true) :
    Point.IsFinite [.ofNumber? x] := by
  intro d hd v hv
  obtain rfl := List.mem_singleton.mp hd
  rw [Datum.value?_ofNumber?] at hv
  exact hx v hv

end Point.IsFinite

structure Series.IsFinite (s : Series) : Prop where
  data : ∀ p ∈ s.data, Point.IsFinite p
  dash : ∀ style ∈ s.lineStyle, ∀ lengths ∈ style.dash, ∀ x ∈ lengths, x.isFinite = true
  label : ∀ label ∈ s.label, ∀ size ∈ label.fontSize, size.isFinite = true

namespace Series.IsFinite

variable {data : List Point} (hdata : ∀ p ∈ data, Point.IsFinite p)
include hdata

theorem plain (type : SeriesType) (name : String) (dimensions : List String) (encode : Encode) :
    (Series.plain type name dimensions encode data).IsFinite :=
  ⟨hdata, fun _ hstyle => (nomatch hstyle), fun _ hlabel => (nomatch hlabel)⟩

theorem requested (request : SeriesRequest) (type : SeriesType) (name : String) :
    (request.series type name data).IsFinite :=
  ⟨hdata, fun _ hstyle => (nomatch hstyle), fun _ hlabel => (nomatch hlabel)⟩

omit hdata in
/-- What a series draws are numbers of its data. -/
theorem of_mem_measured {s : Series} (hs : s.IsFinite) {v : Float} (hv : v ∈ s.measured) :
    v.isFinite = true := by
  obtain ⟨p, hp, hentry⟩ := List.mem_flatMap.mp hv
  obtain ⟨i, -, hi⟩ := List.mem_filterMap.mp hentry
  obtain ⟨d, hd, hvalue⟩ := Option.bind_eq_some_iff.mp hi
  exact hs.data p hp d (List.mem_of_getElem? hd) v hvalue

end Series.IsFinite

section Means

variable {rows : Table} (hrows : rows.IsModerate)
include hrows

/-- Means over whatever categories, with gaps. -/
theorem isFinite_categoryPoints (categories : List String) (x y : String) :
    ∀ p ∈ categoryPoints categories (meansFor categories (rows.groupValues x y)),
      Point.IsFinite p := by
  rw [meansFor_groupValues, categoryPoints_map]
  intro p hp
  obtain ⟨category, -, rfl⟩ := List.mem_map.mp hp
  exact .labelled category (.ofNumber? fun mean hmean => hrows.isFinite_mean hmean)

theorem isFinite_meanPoints (x y : String) : ∀ p ∈ rows.meanPoints x y, Point.IsFinite p := by
  rw [← categoryPoints_groupValues]
  exact isFinite_categoryPoints hrows _ x y

end Means

namespace SeriesRequest

variable (request : SeriesRequest) {rows : Table} (hrows : rows.IsModerate)
include hrows

theorem isFinite_categorySeries : ∀ s ∈ (request.categorySeries rows).series, s.IsFinite := by
  unfold categorySeries
  split
  · rw [series_wholeSeries]
    intro s hs
    obtain rfl := List.mem_singleton.mp hs
    exact .requested (isFinite_meanPoints hrows _ _) request _ _
  · next group _ =>
      rw [series_groupedSeries]
      intro s hs
      obtain ⟨key, -, rfl⟩ := List.mem_map.mp hs
      exact .requested
        (isFinite_categoryPoints (hrows.withLabel group.field key) _ _ _) request _ _

omit hrows in
/-- Points show the numbers of cells. -/
theorem isFinite_scatterPoints : ∀ p ∈ request.scatterPoints rows, Point.IsFinite p := by
  intro p hp
  obtain ⟨pair, hpair, rfl⟩ := List.mem_map.mp hp
  obtain ⟨hfirst, hsecond⟩ := Table.isFinite_of_mem_numberPairs hpair
  refine .numbers [pair.1, pair.2] fun v hv => ?_
  rcases List.mem_pair.mp hv with rfl | rfl
  · exact hfirst
  · exact hsecond

theorem isFinite_trendSeries? {s : Series}
    (hs : request.trendSeries? (rows.numberPairs request.x.field request.y.field) = some s) :
    s.IsFinite := by
  obtain ⟨line, hline, rfl⟩ := Option.map_eq_some_iff.mp hs
  let pairs := rows.numberPairs request.x.field request.y.field
  have hpairs := hrows.bounded_of_mem_numberPairs (x := request.x.field) (y := request.y.field)
  have hne : pairs.map Prod.fst ≠ [] := by
    intro hnil
    change fit? pairs = some line at hline
    rw [List.map_eq_nil_iff.mp hnil] at hline
    cases hline
  have hfirst : ∀ x ∈ pairs.map Prod.fst, Bounded x 256 :=
    List.forall_mem_map.mpr fun pair hpair => (hpairs pair hpair).1
  have hfinite (x : Float) (hx : x ∈ pairs.map Prod.fst) := (hfirst x hx).isFinite
  have hends : ∀ x ∈ [least (pairs.map Prod.fst), greatest (pairs.map Prod.fst)],
      x ∈ pairs.map Prod.fst := by
    intro x hx
    rcases List.mem_pair.mp hx with rfl | rfl
    · exact least_mem hne hfinite
    · exact greatest_mem hne hfinite
  refine ⟨?_, ?_, fun _ hlabel => (nomatch hlabel)⟩
  · intro p hp
    obtain ⟨x, hx, rfl⟩ := List.mem_map.mp hp
    have hbounded := hfirst x (hends x hx)
    have hheight := bounded_height hpairs (hrows.length_numberPairs _ _) (by norm_num) hline
      hbounded
    refine .numbers [x, line.height x] fun v hv => ?_
    rcases List.mem_pair.mp hv with rfl | rfl
    · exact hbounded.isFinite
    · exact hheight.isFinite
  · intro style hstyle lengths hlengths
    obtain rfl := Option.some.inj hstyle
    obtain rfl := Option.some.inj hlengths
    decide +kernel

theorem isFinite_scatterSeries : ∀ s ∈ (request.scatterSeries rows).series, s.IsFinite := by
  intro s hs
  rcases List.mem_append.mp hs with hpoints | htrend
  · split at hpoints
    · obtain rfl := List.mem_singleton.mp hpoints
      exact .requested request.isFinite_scatterPoints request _ _
    · obtain ⟨key, -, rfl⟩ := List.mem_map.mp hpoints
      exact .requested request.isFinite_scatterPoints request _ _
  · split at htrend
    · exact request.isFinite_trendSeries? hrows (Option.mem_toList.mp htrend)
    · exact nomatch htrend

/-- A bin counts at most all values. -/
theorem isFinite_histogramSeries : ∀ s ∈ (request.histogramSeries rows).series, s.IsFinite := by
  let values := rows.filterMap fun row => row.number? request.x.field
  have hlength : values.length ≤ 2 ^ 50 :=
    (List.length_filterMap_le _ _).trans hrows.length_le
  intro s hs
  obtain rfl := List.mem_singleton.mp hs
  refine .plain (fun p hp d hd v hv => ?_) _ _ _ _
  obtain ⟨bin, hbin, rfl⟩ := List.mem_map.mp hp
  rcases List.mem_pair.mp hd with rfl | rfl
  · cases hv
  · obtain rfl := Option.some.inj hv
    have hcount := List.single_le_sum (fun _ _ => Nat.zero_le _) _
      (List.mem_map_of_mem (f := Bin.count) hbin)
    rw [sum_count_histogram values (defaultBinCount_pos _)] at hcount
    exact (Bounded.ofNat (hcount.trans hlength) (by norm_num)).isFinite

theorem isFinite_boxplotSeries : ∀ s ∈ (request.boxplotSeries rows).series, s.IsFinite := by
  have hboxes : ∀ entry ∈ request.boxes rows, ∀ v ∈ [entry.2.lowerWhisker,
      entry.2.lowerQuartile, entry.2.median, entry.2.upperQuartile, entry.2.upperWhisker] ++
        entry.2.outliers, v.isFinite = true := by
    intro entry hentry v hv
    obtain ⟨group, hgroup, hbox⟩ := List.mem_filterMap.mp hentry
    obtain ⟨box, hsummary, rfl⟩ := Option.map_eq_some_iff.mp hbox
    rw [Table.groupValues_eq_map] at hgroup
    obtain ⟨label, -, rfl⟩ := List.mem_map.mp hgroup
    exact (bounded_boxSummary hrows.bounded_of_mem_numbersAt hsummary
      (hrows.length_numbersAt _ _ label) (by norm_num) v hv).isFinite
  intro s hs
  rcases List.mem_cons.mp hs with rfl | hout
  · refine .plain (fun p hp => ?_) _ _ _ _
    obtain ⟨entry, hentry, rfl⟩ := List.mem_map.mp hp
    exact .labelled _ (.numbers _ fun v hv => hboxes entry hentry v (List.mem_append_left _ hv))
  · split at hout
    · exact nomatch hout
    · obtain rfl := List.mem_singleton.mp hout
      refine .requested (fun p hp => ?_) request _ _
      obtain ⟨entry, hentry, hmem⟩ := List.mem_flatMap.mp hp
      obtain ⟨w, hw, rfl⟩ := List.mem_map.mp hmem
      refine .labelled _ (.numbers [w] fun v hv => ?_)
      obtain rfl := List.mem_singleton.mp hv
      exact hboxes entry hentry _ (List.mem_append_right _ hw)

/-- Every builder but that of violins draws finite numbers. -/
theorem isFinite_build (hviolin : request.chartType ≠ .violin) :
    ∀ s ∈ (request.build rows).series, s.IsFinite := by
  unfold build
  cases hchart : request.chartType with
  | scatter => exact request.isFinite_scatterSeries hrows
  | histogram => exact request.isFinite_histogramSeries hrows
  | boxplot => exact request.isFinite_boxplotSeries hrows
  | violin => exact absurd hchart hviolin
  | bar | groupedBar | stackedBar | line | area | errorBar =>
      exact request.isFinite_categorySeries hrows

end SeriesRequest

/-- Means and the bars over them. -/
theorem ErrorBarChart.isFinite_series (chartType : ChartType) (encoding : Encoding)
    {bar : ErrorBar} (hkind : bar.kind ≠ .confidence) {rows : Table}
    (hrows : rows.IsModerate) :
    ∀ s ∈ (build chartType encoding bar rows).area.series, s.IsFinite := by
  intro s hs
  rcases List.mem_pair.mp hs with rfl | rfl
  · refine .plain (fun p hp => ?_) _ _ _ _
    rw [Table.groupValues_eq_map, List.map_map] at hp
    exact isFinite_meanPoints hrows _ _ p hp
  · refine ⟨fun p hp => ?_, fun _ hstyle => (nomatch hstyle), fun _ hlabel => (nomatch hlabel)⟩
    obtain ⟨point, hpoint, rfl⟩ := List.mem_map.mp hp
    change point ∈ (build chartType encoding bar rows).points at hpoint
    rw [points_build] at hpoint
    obtain ⟨category, -, hof⟩ := List.mem_filterMap.mp hpoint
    obtain ⟨hlow, hhigh⟩ := ErrorBarPoint.bounded_of? hkind hrows.bounded_of_mem_numbersAt
      (hrows.length_numbersAt _ _ category) (by norm_num) hof
    refine .labelled _ (.numbers [point.low, point.high] fun v hv => ?_)
    rcases List.mem_pair.mp hv with rfl | rfl
    · exact hlow.isFinite
    · exact hhigh.isFinite

theorem DualAxis.isFinite_series (primary : Axis) (x y2 : FieldDef) (categories : List String)
    {rows : Table} (hrows : rows.IsModerate) (colors : List String) :
    (build primary x y2 categories rows colors).series.IsFinite := by
  refine ⟨isFinite_categoryPoints hrows _ _ _, ?_, fun _ hlabel => (nomatch hlabel)⟩
  intro style hstyle lengths hlengths
  obtain ⟨color, -, rfl⟩ := Option.map_eq_some_iff.mp hstyle
  cases hlengths

end ChartCompiler
