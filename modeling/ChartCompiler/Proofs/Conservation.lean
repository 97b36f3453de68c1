import ChartCompiler.Proofs.Readings
import Mathlib.Algebra.Ring.Nat

/-!
# No row is lost and none is shown twice

A facet moves every row of a table into one of its parts. Within each part a
histogram counts every number once, and a scatter chart has one point for every
row with two numbers. `compile_conserves_rows` says so of whole configurations.

Colours are different: a scatter chart that is split by colour has no series for
rows without a label in the colour's field, and their points are lost.
-/

namespace ChartCompiler

open scoped List
open Statistics

/-! ## Splitting tables -/

namespace Groups

variable {α β : Type}

/-- What joins one group joins the values of all groups. -/
theorem flatMap_snd_add (key : String) (values : List α) (groups : Groups α) :
    (groups.add key values).flatMap Prod.snd ~ groups.flatMap Prod.snd ++ values := by
  induction groups with
  | nil => simp [add]
  | cons head rest ih =>
      obtain ⟨other, old⟩ := head
      unfold add
      split
      · calc (old ++ values) ++ rest.flatMap Prod.snd
          _ = old ++ (values ++ rest.flatMap Prod.snd) := List.append_assoc ..
          _ ~ old ++ (rest.flatMap Prod.snd ++ values) :=
              List.perm_append_comm.append_left old
          _ = (old ++ rest.flatMap Prod.snd) ++ values := (List.append_assoc ..).symm
      · calc old ++ (add key values rest).flatMap Prod.snd
          _ ~ old ++ (rest.flatMap Prod.snd ++ values) := ih.append_left old
          _ = (old ++ rest.flatMap Prod.snd) ++ values := (List.append_assoc ..).symm

/-- The groups hold the values of all items that have a key. -/
theorem flatMap_snd_collect (key : β → Option String) (values : β → List α)
    (items : List β) :
    (collect key values items).flatMap Prod.snd ~
      (items.filter fun item => (key item).isSome).flatMap values := by
  induction items using List.reverseRecOn with
  | nil => exact .nil
  | append_singleton items item ih =>
      rw [collect_append_singleton, List.filter_append, List.flatMap_append]
      cases hkey : key item with
      | none => simpa [hkey] using ih
      | some k =>
          refine (flatMap_snd_add k (values item) _).trans ?_
          simpa [hkey] using ih.append_right (values item)

/-- Splitting items by a key that each of them has loses none. -/
theorem flatMap_snd_split (key : β → String) (items : List β) :
    (split key items).flatMap Prod.snd ~ items := by
  refine (flatMap_snd_collect _ _ items).trans (.of_eq ?_)
  simp only [Option.isSome_some, List.filter_true, List.flatMap_singleton']

end Groups

namespace Table

/-- The parts of a table hold its rows: those without a label have a part as well. -/
theorem partition_perm (rows : Table) (field : String) :
    (rows.partition field).flatMap Prod.snd ~ rows :=
  Groups.flatMap_snd_split (Row.partLabel field) rows

def labelled (rows : Table) (field : String) : Table :=
  rows.filter fun row => (row.label? field).isSome

def unlabelled (rows : Table) (field : String) : Table :=
  rows.filter fun row => (row.label? field).isNone

/-- Selecting the rows of each label in turn finds those with a label. -/
theorem flatMap_withLabel_perm (rows : Table) (field : String) :
    (rows.distinctLabels field).flatMap (rows.withLabel field) ~ rows.labelled field := by
  have hcollect := Groups.flatMap_snd_collect (fun row : Row => row.label? field)
    (fun row => [row]) rows
  rw [Groups.collect_eq_map, ← distinctLabels_eq_firstSeen, List.flatMap_map] at hcollect
  simp only [Groups.valuesOf, List.flatMap_singleton'] at hcollect
  exact hcollect

end Table

/-! ## What series show of the rows -/

def Datum.count? : Datum → Option Nat
  | count n => some n
  | text _ | number _ | gap => none

def Row.point? (x y : String) (row : Row) : Option Point := do
  let a ← row.number? x
  let b ← row.number? y
  return [.number a, .number b]

namespace Series

def counts (s : Series) : List Nat :=
  s.data.flatMap fun point => point.filterMap Datum.count?

def scattered (s : Series) : List Point :=
  if s.type = .scatter then s.data else []

def content (s : Series) : SeriesType × List Point :=
  (s.type, s.data)

end Series

namespace RenderConfig

def counts (config : RenderConfig) : List Nat :=
  config.series.flatMap Series.counts

def scattered (config : RenderConfig) : List Point :=
  config.series.flatMap Series.scattered

end RenderConfig

theorem Series.isIntrinsic_content : IsIntrinsic content :=
  ⟨fun _ => rfl, fun _ _ => rfl, fun _ _ => rfl⟩

/-! ## Histograms -/

namespace Statistics

/-- Counting values one after another counts each of them once, as long as there is
a bin for each. -/
theorem sum_foldl_countAt {index : Float → Nat} (values : List Float) {counts : List Nat}
    (hindex : ∀ v, index v < counts.length) :
    (values.foldl (fun counts v => countAt (index v) counts) counts).sum =
      counts.sum + values.length := by
  induction values generalizing counts with
  | nil => rfl
  | cons v rest ih =>
      have hsum : (countAt (index v) counts).sum = counts.sum + 1 := by
        rw [List.sum_eq_foldr, List.sum_eq_foldr]
        exact sum_countAt (hindex v)
      rw [List.foldl_cons, ih fun w => by rw [length_countAt]; exact hindex w, hsum,
        List.length_cons]
      omega

/-- The bins hold every value, those at the upper end in the last one. -/
theorem sum_count_histogram (values : List Float) {binCount : Nat}
    (hbins : 0 < binCount) :
    ((histogram values binCount).map Bin.count).sum = values.length := by
  unfold histogram
  cases values with
  | nil => rfl
  | cons v rest =>
      simp only [List.isEmpty_cons, Bool.false_eq_true, ↓reduceIte, List.map_map]
      refine (congrArg List.sum (List.zipIdx_map_fst 0 _)).trans ?_
      rw [sum_foldl_countAt]
      · simp
      · intro w
        rw [List.length_replicate]
        omega

theorem defaultBinCount_pos (n : Nat) : 0 < defaultBinCount n := by
  unfold defaultBinCount
  omega

end Statistics

namespace SeriesRequest

theorem build_eq_histogramSeries {request : SeriesRequest}
    (hchart : request.chartType = .histogram) (rows : Table) :
    request.build rows = request.histogramSeries rows := by
  rw [build, hchart]

/-- A histogram counts the rows whose first field holds a number, each of them once. -/
theorem sum_counts_histogramSeries (request : SeriesRequest) (rows : Table) :
    ((request.histogramSeries rows).series.flatMap Series.counts).sum =
      rows.countP fun row => (row.number? request.x.field).isSome := by
  let values := rows.filterMap fun row => row.number? request.x.field
  have hcounts : (request.histogramSeries rows).series.flatMap Series.counts =
      (histogram values (defaultBinCount values.length)).map Bin.count := by
    unfold histogramSeries Series.counts Series.plain
    rw [List.flatMap_singleton, List.flatMap_map, List.map_eq_flatMap]
    rfl
  rw [hcounts, sum_count_histogram values (defaultBinCount_pos _)]
  exact List.length_filterMap_eq_countP

/-! ## Scatter charts -/

theorem build_eq_scatterSeries {request : SeriesRequest}
    (hchart : request.chartType = .scatter) (rows : Table) :
    request.build rows = request.scatterSeries rows := by
  rw [build, hchart]

theorem scatterPoints_eq (request : SeriesRequest) (rows : Table) :
    request.scatterPoints rows =
      rows.filterMap (Row.point? request.x.field request.y.field) := by
  unfold scatterPoints Table.numberPairs
  rw [List.map_filterMap]
  apply List.filterMap_congr
  intro row _
  unfold Row.point?
  cases row.number? request.x.field <;> cases row.number? request.y.field <;> rfl

/-- The line fitted to the points is not drawn as points. -/
theorem flatMap_scattered_trend (request : SeriesRequest) (pairs : List (Float × Float)) :
    (if request.trendline then (request.trendSeries? pairs).toList else []).flatMap
      Series.scattered = [] := by
  rw [List.flatMap_eq_nil_iff]
  intro s hs
  split at hs
  · obtain ⟨line, -, rfl⟩ := Option.map_eq_some_iff.mp (Option.mem_toList.mp hs)
    rfl
  · cases hs

/-- Without a group there is one point for each row with two numbers, in order. -/
theorem scattered_scatterSeries {request : SeriesRequest} (hgroup : request.group = none)
    (rows : Table) :
    (request.scatterSeries rows).series.flatMap Series.scattered =
      rows.filterMap (Row.point? request.x.field request.y.field) := by
  unfold scatterSeries
  rw [hgroup, List.flatMap_append, flatMap_scattered_trend, List.append_nil,
    List.flatMap_singleton, ← scatterPoints_eq]
  rfl

/-- With a group there is one for each such row that has a label. -/
theorem scattered_scatterSeries_of_group {request : SeriesRequest} {group : FieldDef}
    (hgroup : request.group = some group) (rows : Table) :
    (request.scatterSeries rows).series.flatMap Series.scattered ~
      (rows.labelled group.field).filterMap
        (Row.point? request.x.field request.y.field) := by
  have hkeys : (request.scatterSeries rows).series.flatMap Series.scattered =
      (rows.distinctLabels group.field).flatMap fun key =>
        request.scatterPoints (rows.withLabel group.field key) := by
    unfold scatterSeries
    rw [hgroup, List.flatMap_append, flatMap_scattered_trend, List.append_nil,
      List.flatMap_map]
    rfl
  rw [hkeys]
  simp only [scatterPoints_eq]
  rw [← List.filterMap_flatMap]
  exact (rows.flatMap_withLabel_perm group.field).filterMap _

/-! ## Colours -/

/-- All points of a request when the given field splits them, or none does. -/
def pointsBy (request : SeriesRequest) (group : Option FieldDef) (rows : Table) :
    List Point :=
  ({ request with group }.build rows).series.flatMap Series.scattered

section Colors

variable {request : SeriesRequest} (hchart : request.chartType = .scatter)
include hchart

/-- The points that a colour loses are those of the rows without a label for it. -/
theorem pointsBy_append_perm (group : FieldDef) (rows : Table) :
    request.pointsBy (some group) rows ++ (rows.unlabelled group.field).filterMap
        (Row.point? request.x.field request.y.field) ~
      request.pointsBy none rows := by
  have hsplit : rows.labelled group.field ++ rows.unlabelled group.field ~ rows := by
    unfold Table.labelled Table.unlabelled
    simp only [← Option.not_isSome]
    exact List.filter_append_perm _ rows
  have hbuild (group : Option FieldDef) :
      { request with group }.build rows = { request with group }.scatterSeries rows :=
    build_eq_scatterSeries (by exact hchart) rows
  have hsingle : request.pointsBy none rows =
      rows.filterMap (Row.point? request.x.field request.y.field) := by
    rw [pointsBy, hbuild]
    exact scattered_scatterSeries rfl rows
  have hcolored : request.pointsBy (some group) rows ~
      (rows.labelled group.field).filterMap
        (Row.point? request.x.field request.y.field) := by
    rw [pointsBy, hbuild]
    exact scattered_scatterSeries_of_group rfl rows
  rw [hsingle]
  refine (hcolored.append_right _).trans ?_
  rw [← List.filterMap_append]
  exact hsplit.filterMap _

/-- For every table and every field for colours: a scatter chart that is split by
colour shows the points of the chart that is not, less those of the rows without a
label in the field. So no point is lost if and only if every row with two numbers has
a label. -/
theorem splitting_conserves_iff (group : FieldDef) (rows : Table) :
    request.pointsBy (some group) rows ++ (rows.unlabelled group.field).filterMap
        (Row.point? request.x.field request.y.field) ~
      request.pointsBy none rows ∧
    (request.pointsBy (some group) rows ~ request.pointsBy none rows ↔
      ∀ row ∈ rows, (row.point? request.x.field request.y.field).isSome →
        (row.label? group.field).isSome) := by
  have hall := pointsBy_append_perm hchart group rows
  refine ⟨hall, ?_⟩
  have hlost : (rows.unlabelled group.field).filterMap
      (Row.point? request.x.field request.y.field) = [] ↔
        ∀ row ∈ rows, (row.point? request.x.field request.y.field).isSome →
          (row.label? group.field).isSome := by
    rw [List.filterMap_eq_nil_iff]
    unfold Table.unlabelled
    simp only [List.mem_filter, and_imp]
    refine forall₂_congr fun row _ => ?_
    cases row.label? group.field <;>
      cases row.point? request.x.field request.y.field <;> simp
  rw [← hlost]
  constructor
  · intro hperm
    have hlength := (hperm.trans hall.symm).length_eq
    rw [List.length_append, Nat.left_eq_add] at hlength
    exact List.length_eq_zero_iff.mp hlength
  · intro hnil
    rwa [hnil, List.append_nil] at hall

end Colors

def weights : SeriesRequest where
  chartType := .scatter
  x := ⟨"height", .quantitative, none⟩
  y := ⟨"weight", .quantitative, none⟩
  group := none
  trendline := true

/-- Whatever the colour's cell holds, as long as it is not missing, its point is
shown. -/
theorem splitting_conserves_labels :
    let rows : Table := [
      [("height", .number (.integer 1)), ("team", .string "1"),
        ("weight", .number (.integer 3))],
      [("height", .number (.integer 2)), ("team", .bool true),
        ("weight", .number (.integer 5))],
      [("height", .number (.integer 3)), ("team", .number (.integer 1)),
        ("weight", .number (.integer 7))]]
    weights.chartType = .scatter ∧
      weights.pointsBy (some ⟨"team", .nominal, none⟩) rows ~
        weights.pointsBy none rows := by
  intro rows
  have hchart : weights.chartType = .scatter := rfl
  have hlabels : ∀ row ∈ rows, (row.point? "height" "weight").isSome →
      (row.label? "team").isSome := by decide +kernel
  obtain ⟨-, hconserves⟩ := splitting_conserves_iff hchart ⟨"team", .nominal, none⟩ rows
  exact ⟨hchart, hconserves.mpr hlabels⟩

/-- A row without a colour has a point of its own, and loses it when colours split
the chart. -/
theorem splitting_loses_point :
    let rows : Table := [
      [("height", .number (.integer 1)), ("team", .string "a"),
        ("weight", .number (.integer 3))],
      [("height", .number (.integer 2)), ("weight", .number (.integer 5))]]
    ¬ weights.pointsBy (some ⟨"team", .nominal, none⟩) rows ~
      weights.pointsBy none rows := by
  intro rows hperm
  have hsplit : (weights.pointsBy (some ⟨"team", .nominal, none⟩) rows).length = 1 := by
    decide +kernel
  have hwhole : (weights.pointsBy none rows).length = 2 := by decide +kernel
  have hlength := hperm.length_eq
  omega

end SeriesRequest

/-! ## Whole configurations -/

namespace ChartSpec

/-- With no feature but a facet, the chart draws for each part of its rows what the
single plot of that part would draw. -/
theorem content_config {spec : ChartSpec}
    (hnone : ∀ f, f ≠ .facet → spec.resolution.isActive f = false) (rows : Table) :
    ∃ parts : List Table, parts.flatten ~ rows ∧
      (spec.config rows).series.map Series.content =
        parts.flatMap fun part =>
          (spec.plainRequest.build part).series.map Series.content := by
  cases hfacet : spec.resolution.isActive .facet with
  | true =>
      obtain ⟨facet, hgiven⟩ := exists_facet hfacet
      refine ⟨(rows.partition facet.field).map Prod.snd, rows.partition_perm facet.field, ?_⟩
      rw [Series.isIntrinsic_content.map_facet hfacet hgiven, List.flatMap_map]
  | false =>
      have hplain : spec.splitRequest = spec.plainRequest := by
        rw [splitRequest, hnone .colorGroup (by decide)]
        rfl
      refine ⟨[rows], List.flatten_singleton ▸ .refl _, ?_⟩
      rw [Series.isIntrinsic_content.map_single (hnone _ (by decide)) hfacet
        (hnone _ (by decide)), hplain, List.flatMap_singleton]

/-- What is read off the drawing and the data of the series is read part by part. -/
theorem flatMap_content_config {spec : ChartSpec} {rows : Table} {parts : List Table}
    (hcontent : (spec.config rows).series.map Series.content =
      parts.flatMap fun part => (spec.plainRequest.build part).series.map Series.content)
    {α : Type} (read : SeriesType × List Point → List α) :
    ((spec.config rows).series.flatMap fun s => read s.content) =
      parts.flatMap fun part =>
        (spec.plainRequest.build part).series.flatMap fun s => read s.content := by
  rw [← List.flatMap_map, hcontent, List.flatMap_assoc]
  simp only [List.flatMap_map]

theorem sum_counts_config {spec : ChartSpec} (hchart : spec.chartType = .histogram)
    (rows : Table) :
    (spec.config rows).counts.sum =
      rows.countP fun row => (row.number? spec.encoding.x.field).isSome := by
  have hnone : ∀ f, f ≠ .facet → spec.resolution.isActive f = false := by
    intro f hother
    apply isActive_eq_false_of_supports
    rw [hchart]
    cases f with
    | facet => exact absurd rfl hother
    | errorBar | dualAxis | colorGroup | horizontal => rfl
  have hpart (part : Table) :
      ((spec.plainRequest.build part).series.flatMap Series.counts).sum =
        part.countP fun row => (row.number? spec.encoding.x.field).isSome := by
    rw [SeriesRequest.build_eq_histogramSeries hchart]
    exact spec.plainRequest.sum_counts_histogramSeries part
  obtain ⟨parts, hparts, hcontent⟩ := content_config hnone rows
  calc (spec.config rows).counts.sum
    _ = (parts.flatMap fun part =>
          (spec.plainRequest.build part).series.flatMap Series.counts).sum :=
        congrArg List.sum (flatMap_content_config hcontent fun content =>
          content.2.flatMap fun point : Point => point.filterMap Datum.count?)
    _ = (parts.map fun part =>
          part.countP fun row => (row.number? spec.encoding.x.field).isSome).sum := by
        rw [List.flatMap_def, List.sum_flatten, List.map_map]
        exact congrArg List.sum (List.map_congr_left fun part _ => hpart part)
    _ = parts.flatten.countP fun row => (row.number? spec.encoding.x.field).isSome :=
        List.countP_flatten.symm
    _ = rows.countP fun row => (row.number? spec.encoding.x.field).isSome :=
        hparts.countP_eq _

theorem scattered_config_perm {spec : ChartSpec} (hchart : spec.chartType = .scatter)
    (hcolor : spec.resolution.isActive .colorGroup = false) (rows : Table) :
    (spec.config rows).scattered ~
      rows.filterMap (Row.point? spec.encoding.x.field spec.encoding.y.field) := by
  have hnone : ∀ f, f ≠ .facet → spec.resolution.isActive f = false := by
    intro f hother
    cases f with
    | facet => exact absurd rfl hother
    | colorGroup => exact hcolor
    | errorBar | dualAxis | horizontal =>
        apply isActive_eq_false_of_supports
        rw [hchart]
        rfl
  have hpart (part : Table) :
      (spec.plainRequest.build part).series.flatMap Series.scattered =
        part.filterMap (Row.point? spec.encoding.x.field spec.encoding.y.field) := by
    rw [SeriesRequest.build_eq_scatterSeries hchart]
    exact SeriesRequest.scattered_scatterSeries rfl part
  obtain ⟨parts, hparts, hcontent⟩ := content_config hnone rows
  calc (spec.config rows).scattered
    _ = parts.flatMap fun part =>
          (spec.plainRequest.build part).series.flatMap Series.scattered :=
        flatMap_content_config hcontent fun content =>
          if content.1 = .scatter then content.2 else []
    _ = parts.flatMap fun part =>
          part.filterMap (Row.point? spec.encoding.x.field spec.encoding.y.field) := by
        simp only [hpart]
    _ = parts.flatten.filterMap
          (Row.point? spec.encoding.x.field spec.encoding.y.field) := by
        rw [List.flatMap_def, List.filterMap_flatten]
    _ ~ rows.filterMap (Row.point? spec.encoding.x.field spec.encoding.y.field) :=
        hparts.filterMap _

/-- For every valid specification and every table, with a facet or without: the bars
of a histogram count every row that has a number along x exactly once, and a scatter
chart whose colours do not split it has exactly one point for every row with two
numbers. -/
theorem compile_conserves_rows {spec : ChartSpec} (hvalid : spec.violations = [])
    (rows : Table) :
    ∃ config, compile spec rows = .ok config ∧
      (spec.chartType = .histogram → config.counts.sum =
        rows.countP fun row => (row.number? spec.encoding.x.field).isSome) ∧
      (spec.chartType = .scatter → spec.resolution.isActive .colorGroup = false →
        config.scattered ~
          rows.filterMap (Row.point? spec.encoding.x.field spec.encoding.y.field)) :=
  ⟨spec.config rows, compile_eq_ok hvalid rows,
    fun hchart => sum_counts_config hchart rows,
    fun hchart hcolor => scattered_config_perm hchart hcolor rows⟩

def crowdedNumbers (chartType : ChartType) : ChartSpec :=
  { crowded with
    chartType
    encoding := { crowded.encoding with
      x := ⟨"sales", .quantitative, none⟩
      y := ⟨"profit", .quantitative, none⟩ } }

/-- In both charts the row without a quarter has a plot of its own. -/
theorem compile_conserves_rows_crowded :
    (crowdedNumbers .histogram).violations = [] ∧
      (crowdedNumbers .scatter).violations = [] ∧
      (crowdedNumbers .scatter).resolution.isActive .colorGroup = false ∧
      ∃ bars points, compile (crowdedNumbers .histogram) .sales = .ok bars ∧
        bars.counts.sum = 2 ∧
        compile (crowdedNumbers .scatter) .sales = .ok points ∧
        points.scattered ~ [[.number 10, .number 1], [.number 30, .number 2]] := by
  have hbars : (crowdedNumbers .histogram).violations = [] := by decide +kernel
  have hpoints : (crowdedNumbers .scatter).violations = [] := by decide +kernel
  have hcolor : (crowdedNumbers .scatter).resolution.isActive .colorGroup = false := by
    decide +kernel
  obtain ⟨bars, hcompiled, hcounts, -⟩ := compile_conserves_rows hbars .sales
  obtain ⟨points, hcompiled', -, hscattered⟩ := compile_conserves_rows hpoints .sales
  have hnumbers : (Table.sales.countP fun row => (row.number? "sales").isSome) = 2 := by
    decide +kernel
  have hpairs : Table.sales.filterMap (Row.point? "sales" "profit") =
      [[.number 10, .number 1], [.number 30, .number 2]] := by rfl
  have hall := hscattered rfl hcolor
  exact ⟨hbars, hpoints, hcolor, bars, points, hcompiled, (hcounts rfl).trans hnumbers,
    hcompiled', hall.trans (.of_eq hpairs)⟩

end ChartSpec

end ChartCompiler
