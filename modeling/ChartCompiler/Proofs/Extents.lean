import ChartCompiler.Plot.Facet
import ChartCompiler.Proofs.Conservation
import ChartCompiler.Proofs.Grouping
import ChartCompiler.Proofs.Numbers

/-!
# Extents are least and greatest values

Each builder of series folds the values that it draws into an extent, and small
multiples fold the extents of their cells into one. Both folds find a least and a
greatest value, as long as all values are numbers.
-/

namespace ChartCompiler

open Double Statistics

/-! ## Folds -/

/-- The extent runs from the least to the greatest of the values. -/
structure IsExtent (extent : Float × Float) (values : List Float) : Prop where
  low_mem : extent.1 ∈ values
  high_mem : extent.2 ∈ values
  low_le : ∀ v ∈ values, extent.1 ≤ v
  le_high : ∀ v ∈ values, v ≤ extent.2

namespace IsExtent

variable {first second : Float × Float} {values others : List Float}

theorem isNaN (h : IsExtent first values) :
    first.1.isNaN = false ∧ first.2.isNaN = false :=
  ⟨((le_iff _ _).mp (h.low_le _ h.low_mem)).1, ((le_iff _ _).mp (h.le_high _ h.high_mem)).1⟩

theorem single {v : Float} (hv : v.isNaN = false) : IsExtent (v, v) [v] where
  low_mem := List.mem_singleton_self v
  high_mem := List.mem_singleton_self v
  low_le w hw := by
    rw [List.mem_singleton.mp hw]
    exact le_self hv
  le_high w hw := by
    rw [List.mem_singleton.mp hw]
    exact le_self hv

/-- The extent of two lists together comes from their extents. -/
theorem append (hfirst : IsExtent first values) (hsecond : IsExtent second others) :
    IsExtent (lesser first.1 second.1, greater first.2 second.2) (values ++ others) := by
  obtain ⟨hlow, hlowFirst, hlowSecond⟩ := lesser_spec hfirst.isNaN.1 hsecond.isNaN.1
  obtain ⟨hhigh, hhighFirst, hhighSecond⟩ := greater_spec hfirst.isNaN.2 hsecond.isNaN.2
  refine ⟨?_, ?_, ?_, ?_⟩
  · rcases hlow with heq | heq
    · rw [heq]
      exact List.mem_append_left _ hfirst.low_mem
    · rw [heq]
      exact List.mem_append_right _ hsecond.low_mem
  · rcases hhigh with heq | heq
    · rw [heq]
      exact List.mem_append_left _ hfirst.high_mem
    · rw [heq]
      exact List.mem_append_right _ hsecond.high_mem
  · intro v hv
    rcases List.mem_append.mp hv with hmem | hmem
    · exact le_of_le_of_le hlowFirst (hfirst.low_le v hmem)
    · exact le_of_le_of_le hlowSecond (hsecond.low_le v hmem)
  · intro v hv
    rcases List.mem_append.mp hv with hmem | hmem
    · exact le_of_le_of_le (hfirst.le_high v hmem) hhighFirst
    · exact le_of_le_of_le (hsecond.le_high v hmem) hhighSecond

theorem congr (h : IsExtent first values) (hsame : ∀ v, v ∈ values ↔ v ∈ others) :
    IsExtent first others where
  low_mem := (hsame _).mp h.low_mem
  high_mem := (hsame _).mp h.high_mem
  low_le v hv := h.low_le v ((hsame v).mpr hv)
  le_high v hv := h.le_high v ((hsame v).mpr hv)

end IsExtent

/-- The extent, if there is one, is that of the values, and otherwise there are none. -/
def Spans : Option (Float × Float) → List Float → Prop
  | none, values => values = []
  | some extent, values => IsExtent extent values

theorem Spans.congr {extent : Option (Float × Float)} {values others : List Float}
    (h : Spans extent values) (hsame : ∀ v, v ∈ values ↔ v ∈ others) :
    Spans extent others := by
  cases extent with
  | none =>
      refine List.eq_nil_iff_forall_not_mem.mpr fun v hv => ?_
      rw [show values = [] from h] at hsame
      exact nomatch (hsame v).mpr hv
  | some extent => exact IsExtent.congr h hsame

theorem isExtent_foldl {values rest : List Float} {extent : Float × Float}
    (hextent : IsExtent extent values) (hrest : ∀ v ∈ rest, v.isNaN = false) :
    IsExtent (rest.foldl (fun (low, high) v => (lesser low v, greater high v)) extent)
      (values ++ rest) := by
  induction rest generalizing extent values with
  | nil =>
      rw [List.append_nil]
      exact hextent
  | cons v rest ih =>
      have hstep := hextent.append (.single (hrest v List.mem_cons_self))
      have hrun := ih hstep fun w hw => hrest w (List.mem_cons_of_mem v hw)
      rw [List.append_assoc] at hrun
      exact hrun

/-- The extent of numbers is found by one pass. -/
theorem spans_extent? {values : List Float} (hnumbers : ∀ v ∈ values, v.isNaN = false) :
    Spans (extent? values) values := by
  cases values with
  | nil => rfl
  | cons first rest =>
      exact isExtent_foldl (.single (hnumbers first List.mem_cons_self)) fun v hv =>
        hnumbers v (List.mem_cons_of_mem first hv)

namespace FacetChart

section Sets

variable {α : Type} {set : α → SeriesSet} {values : α → List Float} {cells : List α}
  (hcells : ∀ cell ∈ cells, Spans (set cell).extent (values cell))
include hcells

theorem isExtent_foldl_sets {covered : List Float} {extent : Float × Float}
    (hextent : IsExtent extent covered) :
    IsExtent (((cells.map set).filterMap SeriesSet.extent).foldl
      (fun (a, b) (low, high) => (lesser a low, greater b high)) extent)
      (covered ++ cells.flatMap values) := by
  induction cells generalizing extent covered with
  | nil =>
      rw [List.flatMap_nil, List.append_nil]
      exact hextent
  | cons cell rest ih =>
      have hcell := hcells cell List.mem_cons_self
      have hrest (other : α) (hother : other ∈ rest) :=
        hcells other (List.mem_cons_of_mem cell hother)
      rw [List.flatMap_cons, List.map_cons]
      cases hfound : (set cell).extent with
      | none =>
          rw [hfound] at hcell
          rw [List.filterMap_cons_none hfound, show values cell = [] from hcell,
            List.nil_append]
          exact ih hrest hextent
      | some other =>
          rw [hfound] at hcell
          rw [List.filterMap_cons_some hfound, ← List.append_assoc]
          exact ih hrest (hextent.append hcell)

/-- The extent that cells share is that of all their values. -/
theorem spans_sharedExtent? :
    Spans (sharedExtent? (cells.map set)) (cells.flatMap values) := by
  unfold sharedExtent?
  induction cells with
  | nil => rfl
  | cons cell rest ih =>
      have hcell := hcells cell List.mem_cons_self
      have hrest (other : α) (hother : other ∈ rest) :=
        hcells other (List.mem_cons_of_mem cell hother)
      rw [List.flatMap_cons, List.map_cons]
      cases hfound : (set cell).extent with
      | none =>
          rw [hfound] at hcell
          rw [List.filterMap_cons_none hfound, show values cell = [] from hcell,
            List.nil_append]
          exact ih hrest
      | some extent =>
          rw [hfound] at hcell
          rw [List.filterMap_cons_some hfound]
          exact isExtent_foldl_sets hrest hcell

end Sets

end FacetChart

/-! ## Drawn values -/

def Datum.value? : Datum → Option Float
  | .number x => some x
  | .count n => some (Float.ofNat n)
  | .text _ | .gap => none

theorem Datum.value?_ofNumber? (x : Option Float) : (ofNumber? x).value? = x := by
  cases x <;> rfl

/-- The entries of a point between which its mark is drawn: the whiskers of a box, and
the value of every other mark. -/
def SeriesType.reach : SeriesType → List Nat
  | .boxplot => [1, 5]
  | _ => [1]

def Series.measured (s : Series) : List Float :=
  s.data.flatMap fun point => s.type.reach.filterMap fun i => point[i]?.bind Datum.value?

def SeriesSet.measured (set : SeriesSet) : List Float :=
  set.series.flatMap Series.measured

/-- Points with two entries draw the second one. -/
theorem Series.measured_pairs {α : Type} {s : Series} (htype : s.type ≠ .boxplot)
    {items : List α} {first second : α → Datum}
    (hdata : s.data = items.map fun item => [first item, second item]) :
    s.measured = items.filterMap fun item => (second item).value? := by
  have hreach : s.type.reach = [1] := by
    unfold SeriesType.reach
    cases htype' : s.type <;> first | rfl | exact absurd htype' htype
  unfold measured
  rw [hdata, hreach, List.flatMap_map]
  simp only [List.filterMap_cons, List.filterMap_nil, List.getElem?_cons_succ,
    List.getElem?_cons_zero, Option.bind_some]
  rw [List.filterMap_eq_flatMap_toList]
  congr 1

/-! ## Builders -/

theorem Table.length_numbersAt_le (rows : Table) (x y label : String) :
    (rows.numbersAt x y label).length ≤ rows.length :=
  (List.length_filterMap_le _ _).trans (List.length_filter_le _ _)

theorem Table.isFinite_of_mem_numbersAt {rows : Table} {x y label : String} {v : Float}
    (hv : v ∈ rows.numbersAt x y label) : v.isFinite = true := by
  obtain ⟨row, -, hrow⟩ := List.mem_filterMap.mp hv
  exact Row.isFinite_number? hrow

theorem Table.isFinite_of_mem_numberPairs {rows : Table} {x y : String}
    {pair : Float × Float} (hpair : pair ∈ rows.numberPairs x y) :
    pair.1.isFinite = true ∧ pair.2.isFinite = true := by
  obtain ⟨row, -, hrow⟩ := List.mem_filterMap.mp hpair
  split at hrow
  · next a b ha hb =>
      obtain rfl := Option.some.inj hrow
      exact ⟨Row.isFinite_number? ha, Row.isFinite_number? hb⟩
  · cases hrow

namespace SeriesRequest

theorem mark_ne_boxplot {chartType : ChartType} (hmeans : chartType.showsMeans = true) :
    chartType.mark ≠ .boxplot := by
  cases chartType with
  | scatter | histogram | boxplot | violin => cases hmeans
  | bar | groupedBar | stackedBar | line | area | errorBar => exact fun hmark => by cases hmark

def boxes (request : SeriesRequest) (rows : Table) : List (String × BoxSummary) :=
  (rows.groupValues request.x.field request.y.field).filterMap fun (category, values) =>
    (BoxSummary.of? values).map fun box => (category, box)

/-- A point for each value beyond the whiskers. -/
theorem measured_outliers {s : Series} (htype : s.type ≠ .boxplot)
    {boxes : List (String × BoxSummary)}
    (hdata : s.data = boxes.flatMap fun entry =>
      entry.2.outliers.map fun v => [.text entry.1, .number v]) :
    s.measured = boxes.flatMap fun entry => entry.2.outliers := by
  have hitems : s.data = (boxes.flatMap fun entry => entry.2.outliers.map fun v =>
      (entry.1, v)).map fun item => [.text item.1, .number item.2] := by
    rw [hdata, List.map_flatMap]
    simp only [List.map_map]
    rfl
  rw [Series.measured_pairs htype hitems, List.filterMap_flatMap]
  congr 1
  funext entry
  rw [List.filterMap_map]
  exact (congrFun List.filterMap_eq_map entry.2.outliers).trans (List.map_id _)

theorem measured_boxplotSeries (request : SeriesRequest) (rows : Table) :
    (request.boxplotSeries rows).measured =
      ((request.boxes rows).flatMap fun entry =>
        [entry.2.lowerWhisker, entry.2.upperWhisker]) ++
      (request.boxes rows).flatMap fun entry => entry.2.outliers := by
  have hboxes : (Series.plain .boxplot request.y.displayName (request.x.field :: boxDimensions)
      ⟨.one request.x.field, .many boxDimensions⟩
      ((request.boxes rows).map fun entry =>
        [.text entry.1, .number entry.2.lowerWhisker, .number entry.2.lowerQuartile,
          .number entry.2.median, .number entry.2.upperQuartile,
          .number entry.2.upperWhisker])).measured =
      (request.boxes rows).flatMap fun entry =>
        [entry.2.lowerWhisker, entry.2.upperWhisker] := by
    unfold Series.measured Series.plain
    rw [List.flatMap_map]
    rfl
  let outliers : List Point := (request.boxes rows).flatMap fun entry =>
    entry.2.outliers.map fun v => [.text entry.1, .number v]
  have houtliers : (if outliers.isEmpty then []
      else [request.series .scatter "Outliers" outliers]).flatMap Series.measured =
      (request.boxes rows).flatMap fun entry => entry.2.outliers := by
    have hmeasured := measured_outliers (s := request.series .scatter "Outliers" outliers)
      (fun htype => by cases htype) rfl
    split
    · next hempty =>
        rw [List.isEmpty_iff] at hempty
        rw [← hmeasured]
        unfold Series.measured
        change [] = outliers.flatMap _
        rw [hempty]
        rfl
    · rw [List.flatMap_singleton, hmeasured]
  rw [← hboxes, ← houtliers]
  rfl

section Builders

variable (request : SeriesRequest) {rows : Table} (hrows : rows.length < 2 ^ 63)
include hrows

/-- A chart of means draws the means, and its extent is theirs. -/
theorem spans_wholeSeries (hmeans : request.chartType.showsMeans = true) :
    Spans (request.wholeSeries rows).extent (request.wholeSeries rows).measured := by
  let x := request.x.field
  let y := request.y.field
  have hmeasured : (request.wholeSeries rows).measured =
      (rows.distinctLabels x).filterMap fun label => mean? (rows.numbersAt x y label) := by
    unfold SeriesSet.measured
    rw [series_wholeSeries, List.flatMap_singleton,
      Series.measured_pairs (mark_ne_boxplot hmeans) rfl]
    simp only [Datum.value?_ofNumber?]
    rfl
  have hextent : (request.wholeSeries rows).extent = extent?
      ((rows.distinctLabels x).filterMap fun label => mean? (rows.numbersAt x y label)) := by
    unfold wholeSeries
    simp only [Table.keys_groupValues, meansFor_groupValues, List.filterMap_map]
    rfl
  rw [hmeasured, hextent]
  apply spans_extent?
  intro mean hmean
  obtain ⟨label, -, hlabel⟩ := List.mem_filterMap.mp hmean
  exact isNaN_mean? (fun v hv => Table.isFinite_of_mem_numbersAt hv)
    ((Table.length_numbersAt_le rows x y label).trans_lt hrows) hlabel

omit hrows in
theorem spans_scatterSeries (hgroup : request.group = none) (htrend : request.trendline = false) :
    Spans (request.scatterSeries rows).extent (request.scatterSeries rows).measured := by
  let pairs := rows.numberPairs request.x.field request.y.field
  have hmeasured : (request.scatterSeries rows).measured = pairs.map Prod.snd := by
    have hseries : (request.scatterSeries rows).series =
        [request.series .scatter request.y.displayName (request.scatterPoints rows)] := by
      unfold scatterSeries
      simp only [hgroup, htrend, Bool.false_eq_true, ↓reduceIte, List.append_nil]
    unfold SeriesSet.measured
    rw [hseries, List.flatMap_singleton, Series.measured_pairs (fun htype => by cases htype) rfl]
    exact congrFun List.filterMap_eq_map pairs
  rw [hmeasured]
  apply spans_extent?
  intro v hv
  obtain ⟨pair, hpair, rfl⟩ := List.mem_map.mp hv
  exact isNaN_of_isFinite (Table.isFinite_of_mem_numberPairs hpair).2

omit hrows in
theorem spans_histogramSeries :
    Spans (request.histogramSeries rows).extent (request.histogramSeries rows).measured := by
  let values := rows.filterMap fun row => row.number? request.x.field
  let bins := histogram values (defaultBinCount values.length)
  have hmeasured : (request.histogramSeries rows).measured =
      bins.map fun bin => Float.ofNat bin.count := by
    unfold SeriesSet.measured histogramSeries
    rw [List.flatMap_singleton, Series.measured_pairs (fun htype => by cases htype) rfl]
    exact congrFun List.filterMap_eq_map bins
  rw [hmeasured]
  apply spans_extent?
  intro v hv
  obtain ⟨bin, -, rfl⟩ := List.mem_map.mp hv
  exact (rounds_ofNat bin.count).isNaN

/-- What a box plot draws of its boxes are numbers. -/
theorem isNaN_of_mem_boxes {entry : String × BoxSummary} (hentry : entry ∈ request.boxes rows) :
    ∀ v ∈ entry.2.outliers ++ [entry.2.lowerWhisker, entry.2.upperWhisker],
      v.isNaN = false := by
  obtain ⟨group, hgroup, hbox⟩ := List.mem_filterMap.mp hentry
  obtain ⟨box, hsummary, rfl⟩ := Option.map_eq_some_iff.mp hbox
  rw [Table.groupValues_eq_map] at hgroup
  obtain ⟨label, -, rfl⟩ := List.mem_map.mp hgroup
  obtain ⟨hlower, hupper, houtliers⟩ := isNaN_whiskers
    (fun w hw => Table.isFinite_of_mem_numbersAt hw)
    ((Table.length_numbersAt_le rows _ _ label).trans_lt hrows) hsummary
  intro v hv
  rcases List.mem_append.mp hv with hout | hwhisker
  · exact isNaN_of_isFinite (houtliers v hout)
  · rcases List.mem_pair.mp hwhisker with rfl | rfl
    · exact hlower
    · exact hupper

theorem spans_boxplotSeries :
    Spans (request.boxplotSeries rows).extent (request.boxplotSeries rows).measured := by
  have hextent : Spans (request.boxplotSeries rows).extent ((request.boxes rows).flatMap
      fun entry => entry.2.outliers ++ [entry.2.lowerWhisker, entry.2.upperWhisker]) := by
    apply spans_extent?
    intro v hv
    obtain ⟨entry, hentry, hmem⟩ := List.mem_flatMap.mp hv
    exact isNaN_of_mem_boxes request hrows hentry v hmem
  refine hextent.congr fun v => ?_
  rw [measured_boxplotSeries, List.mem_append, List.mem_flatMap, List.mem_flatMap,
    List.mem_flatMap]
  simp only [List.mem_append]
  constructor
  · rintro ⟨entry, hentry, hout | hwhisker⟩
    · exact .inr ⟨entry, hentry, hout⟩
    · exact .inl ⟨entry, hentry, hwhisker⟩
  · rintro (⟨entry, hentry, hwhisker⟩ | ⟨entry, hentry, hout⟩)
    · exact ⟨entry, hentry, .inr hwhisker⟩
    · exact ⟨entry, hentry, .inl hout⟩

/-- Every builder but that of violins gives the extent of what it draws. -/
theorem spans_build (hviolin : request.chartType ≠ .violin) (hgroup : request.group = none)
    (htrend : request.trendline = false) :
    Spans (request.build rows).extent (request.build rows).measured := by
  cases hchart : request.chartType with
  | scatter =>
      rw [build_eq_scatterSeries hchart]
      exact spans_scatterSeries request hgroup htrend
  | histogram =>
      rw [build_eq_histogramSeries hchart]
      exact spans_histogramSeries request
  | boxplot =>
      rw [build, hchart]
      exact spans_boxplotSeries request hrows
  | violin => exact absurd hchart hviolin
  | bar | groupedBar | stackedBar | line | area | errorBar =>
      have hmeans : request.chartType.showsMeans = true := by
        rw [hchart]
        rfl
      rw [build_eq_wholeSeries hmeans hgroup]
      exact spans_wholeSeries request hrows hmeans

end Builders

end SeriesRequest

end ChartCompiler
