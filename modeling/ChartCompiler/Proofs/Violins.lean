import ChartCompiler.Proofs.Bandwidths
import ChartCompiler.Proofs.Extents

/-!
# Violins are complete

A violin has a point for each place of the grid, or one point where the numbers and their bandwidth
leave no room for a grid. Different numbers always leave room. The density of numbers of moderate
size is normalised.
-/

namespace ChartCompiler

open Double Statistics
open SeriesRequest (violinPoints)

/-! ## Points of a category -/

/-- A place and the density there, of a point of this category. -/
def Point.curveAt? (category : String) (point : Point) : Option (Float × Float) :=
  match point with
  | [.text c, .number place, .number height] => if c = category then some (place, height) else none
  | _ => none

def SeriesSet.curveAt (set : SeriesSet) (category : String) : List (Float × Float) :=
  (set.series.flatMap (·.data)).filterMap (Point.curveAt? category)

def violinData (category : String) (curve : Density) : List Point :=
  curve.points.map fun (place, height) => [.text category, .number place, .number height]

theorem zipWith_eq_violinData (category : String) (curve : Density) :
    curve.grid.zipWith (fun place height => [.text category, .number place, .number height])
      curve.density = violinData category curve := by
  rw [violinData, Density.points, List.map_zip_eq_zipWith]
  rfl

theorem curveAt?_violinData (category label : String) (curve : Density) :
    (violinData label curve).filterMap (Point.curveAt? category) =
      if label = category then curve.points else [] := by
  rw [violinData, List.filterMap_map]
  split_ifs with heq
  · refine (List.filterMap_congr fun point _ => ?_).trans List.filterMap_some
    simp [Point.curveAt?, heq]
  · refine List.filterMap_eq_nil_iff.mpr fun point _ => ?_
    simp [Point.curveAt?, heq]

/-- Only one of different items contributes to the list. -/
theorem flatMap_of_unique {α β : Type} [DecidableEq α] {items : List α} (hnodup : items.Nodup)
    (item : α) (f : α → List β) :
    (items.flatMap fun a => if a = item then f a else []) =
      if item ∈ items then f item else [] := by
  induction items with
  | nil => rfl
  | cons first rest ih =>
      obtain ⟨hfirst, hrest⟩ := List.nodup_cons.mp hnodup
      rw [List.flatMap_cons, ih hrest]
      by_cases heq : first = item
      · subst heq
        simp [hfirst]
      · simp [heq, Ne.symm heq]

/-- The curve over the numbers of a category is complete, and normalised unless the numbers are too
large or their bandwidth is too small. -/
structure IsViolin (p : Platform) (numbers : List Float) (curve : List (Float × Float)) :
    Prop where
  full : ¬LeavesNoRoom numbers (p.bandwidth numbers) → curve.length = violinPoints
  single : LeavesNoRoom numbers (p.bandwidth numbers) → curve = [(least numbers, 1)]
  room : ∀ a ∈ numbers, ∀ b ∈ numbers, a < b → ¬LeavesNoRoom numbers (p.bandwidth numbers)
  normalised : IsModerate numbers (p.bandwidth numbers) → IsNormalised (curve.map Prod.snd)
  moderate : (∀ v ∈ numbers, Bounded v 480) → numbers.length ≤ 2 ^ 50 →
    (0 < quartileRange numbers → 2 ^ (-800 : ℤ) ≤ real (quartileRange numbers)) →
      IsModerate numbers (p.bandwidth numbers)

theorem isViolin_density {p : Platform} (hp : p.IsFaithful) {numbers : List Float}
    (hne : numbers ≠ []) (hfinite : ∀ v ∈ numbers, v.isFinite = true) :
    IsViolin p numbers (p.density numbers (p.bandwidth numbers) violinPoints).points := by
  have hmany : 1 < violinPoints := by decide
  have hfew : violinPoints ≤ 2 ^ 6 := by decide
  constructor
  case full => exact points_of_room hne hmany
  case single => exact points_of_no_room hne hmany
  case room => exact fun a ha b hb hlt => room_of_lt hp hfinite ha hb hlt
  case normalised =>
    intro hmoderate
    rw [map_snd_points]
    exact p.isNormalised_density hp hne hmoderate hmany hfew
  case moderate => exact IsModerate.of_values hp

/-! ## Numbers whose sum overflows -/

namespace Statistics

/-- Two numbers whose sum overflows. -/
def enormous : List Float := [1.7e308, 1.7e308]

theorem bandwidth_enormous : Platform.rounded.bandwidth enormous = infinity := by
  have hdeviation : standardDeviation enormous = infinity := by decide +kernel
  have hsorted : sorted enormous = enormous := List.mergeSort_of_pairwise (by decide +kernel)
  have hrange : ¬0 < quartileRange enormous := by
    rw [quartileRange, hsorted]
    decide +kernel
  have hscale : ¬infinity ≤ 0 := by decide +kernel
  have hproduct : 0.9 * infinity = infinity := by decide +kernel
  have hsized : IsSized (Platform.rounded.pow (size enormous) (-0.2)) (-51) 1 :=
    sized_pow Platform.isFaithful_rounded (by decide) (by decide)
  have hpower : 0 < Platform.rounded.pow (size enormous) (-0.2) :=
    (real_lt_real_iff rfl hsized.isFinite).mpr (by rw [real_zero]; exact hsized.pos)
  rw [Platform.bandwidth, if_neg (by decide)]
  dsimp only
  rw [if_neg hrange, hdeviation, if_neg hscale, hproduct, mul_infinity_of_pos hpower hsized.isFinite]

theorem height_nan : Platform.rounded.height enormous infinity (0 / 0) = 0 / 0 := by
  have hexp : Platform.rounded.exp (0 / 0) = 0 / 0 := by
    have hinfinite : ¬(0 / 0 : Float).isFinite = true := by decide +kernel
    have hnotNegative : ¬(0 / 0 : Float) < 0 := by decide +kernel
    rw [Platform.rounded]
    dsimp only
    rw [if_neg hinfinite, if_neg hnotNegative]
  have hexponent : (-0.5 * (0 / 0) * (0 / 0) : Float) = 0 / 0 := by decide +kernel
  have hfar : ((0 / 0 - 1.7e308) / infinity : Float) = 0 / 0 := by decide +kernel
  simp only [Platform.height, enormous, List.map_cons, List.map_nil, hfar, Platform.gaussian,
    hexponent, hexp]
  decide +kernel

/-- The curve over numbers whose sum overflows has no heights. -/
theorem density_enormous :
    (Platform.rounded.density enormous (Platform.rounded.bandwidth enormous)
      violinPoints).density = List.replicate violinPoints (0 / 0) := by
  have hgrid : (List.range violinPoints).map (gridPlace enormous infinity violinPoints) =
      List.replicate violinPoints (0 / 0) := by decide +kernel
  have hrange : ¬(gridRange enormous infinity ≤ 0 || violinPoints = 1) = true := by
    decide +kernel
  have hscaled : scaledToPeak (List.replicate violinPoints (0 / 0)) =
      List.replicate violinPoints (0 / 0) := by decide +kernel
  rw [bandwidth_enormous, Platform.density, if_neg (by decide), if_neg hrange]
  dsimp only
  rw [hgrid, List.map_replicate, height_nan, hscaled]

end Statistics

/-! ## Plots -/

namespace SeriesRequest

variable (request : SeriesRequest) (p : Platform) (rows : Table)

def numbersOf (category : String) : List Float :=
  rows.numbersAt request.x.field request.y.field category

def densityOf (category : String) : Density :=
  p.density (request.numbersOf rows category) (p.bandwidth (request.numbersOf rows category))
    violinPoints

/-- The violins with the functions of a platform. -/
def violinSeriesOn : SeriesSet :=
  let x := request.x.field
  let y := request.y.field
  let violins := (rows.groupValues x y).filterMap fun (category, values) =>
    if values.isEmpty then none
    else some (category, p.density values (p.bandwidth values) violinPoints)
  let data := violins.flatMap fun (category, curve) =>
    curve.grid.zipWith (fun place height => [.text category, .number place, .number height])
      curve.density
  { categories := some (violins.map Prod.fst)
    series := [
      { Series.plain .custom request.y.displayName [x, y, "density"] (.pair x y) data with
        renderItem := some "violin" }]
    extent := extent? (violins.flatMap fun (_, curve) => curve.grid) }

/-- The categories that have numbers. -/
def violinCategories : List String :=
  (rows.distinctLabels request.x.field).filter fun category => request.numbersOf rows category ≠ []

/-- Each category that has numbers is paired with its density. -/
theorem violins_eq_map :
    ((rows.groupValues request.x.field request.y.field).filterMap fun (category, values) =>
      if values.isEmpty then none
      else some (category, p.density values (p.bandwidth values) violinPoints)) =
      (request.violinCategories rows).map fun category =>
        (category, request.densityOf p rows category) := by
  rw [Table.groupValues_eq_map, List.filterMap_map, violinCategories, ← List.filterMap_eq_map,
    List.filterMap_filter]
  refine List.filterMap_congr fun category _ => ?_
  change (if (request.numbersOf rows category).isEmpty then none
    else some (category, request.densityOf p rows category)) = _
  by_cases hnone : request.numbersOf rows category = []
  · simp [hnone]
  · simp [hnone]

theorem categories_violinSeriesOn :
    (request.violinSeriesOn p rows).categories = some (request.violinCategories rows) := by
  unfold violinSeriesOn
  dsimp only
  rw [violins_eq_map, List.map_map]
  exact congrArg some (List.map_id _)

theorem data_violinSeriesOn :
    (request.violinSeriesOn p rows).series.flatMap (·.data) =
      (request.violinCategories rows).flatMap fun category =>
        violinData category (request.densityOf p rows category) := by
  unfold violinSeriesOn
  dsimp only
  rw [violins_eq_map, List.flatMap_singleton, List.flatMap_map]
  exact List.flatMap_congr fun category _ => zipWith_eq_violinData category _

theorem curveAt_violinSeriesOn (category : String) :
    (request.violinSeriesOn p rows).curveAt category =
      if request.numbersOf rows category = [] then []
      else (request.densityOf p rows category).points := by
  have hnodup : (request.violinCategories rows).Nodup :=
    (rows.nodup_distinctLabels request.x.field).filter _
  rw [SeriesSet.curveAt, data_violinSeriesOn, List.filterMap_flatMap]
  simp only [curveAt?_violinData]
  rw [flatMap_of_unique hnodup]
  by_cases hnone : request.numbersOf rows category = []
  · rw [if_pos hnone, if_neg]
    simp [violinCategories, hnone]
  · rw [if_neg hnone, if_pos]
    refine List.mem_filter.mpr ⟨?_, by simpa using hnone⟩
    by_contra habsent
    exact hnone (Table.numbersAt_eq_nil_of_notMem habsent _)

/-- There is a violin for each category that has numbers, and nothing else. -/
structure IsViolinPlot (set : SeriesSet) : Prop where
  categories : set.categories = some (request.violinCategories rows)
  shape : ∀ point ∈ set.series.flatMap (·.data), ∃ category ∈ request.violinCategories rows,
    ∃ place height, point = [.text category, .number place, .number height]
  absent : ∀ category, request.numbersOf rows category = [] → set.curveAt category = []
  violin : ∀ category, request.numbersOf rows category ≠ [] →
    IsViolin p (request.numbersOf rows category) (set.curveAt category)

variable {p} in
/-- The violins of all rows are complete, with exponentials and powers as documented. -/
theorem violins_complete (hp : p.IsFaithful) :
    request.violinSeries rows = request.violinSeriesOn .compiled rows ∧
      request.IsViolinPlot p rows (request.violinSeriesOn p rows) := by
  refine ⟨rfl, ?_⟩
  constructor
  case categories => exact request.categories_violinSeriesOn p rows
  case shape =>
    intro point hpoint
    rw [data_violinSeriesOn] at hpoint
    obtain ⟨category, hcategory, hmem⟩ := List.mem_flatMap.mp hpoint
    obtain ⟨⟨place, height⟩, -, rfl⟩ := List.mem_map.mp hmem
    exact ⟨category, hcategory, place, height, rfl⟩
  case absent =>
    intro category hnone
    rw [curveAt_violinSeriesOn, if_pos hnone]
  case violin =>
    intro category hsome
    rw [curveAt_violinSeriesOn, if_neg hsome]
    exact isViolin_density hp hsome fun v => Table.isFinite_of_mem_numbersAt

def soldByRegion : SeriesRequest where
  chartType := .violin
  x := { field := "region", type := .nominal, title := none }
  y := { field := "sales", type := .quantitative, title := none }
  group := none
  trendline := false

/-- Two sales in the north, one in the east, and none is known of the south. -/
def knownSales : Table :=
  [[("region", .string "North"), ("sales", .number (.integer 1))],
    [("region", .string "South")],
    [("region", .string "East"), ("sales", .number (.integer 5))],
    [("region", .string "North"), ("sales", .number (.integer 2))]]

theorem violins_complete_known :
    soldByRegion.violinCategories knownSales = ["North", "East"] ∧
      ((soldByRegion.violinSeriesOn .rounded knownSales).curveAt "North").length = 64 ∧
      IsNormalised (((soldByRegion.violinSeriesOn .rounded knownSales).curveAt "North").map
        Prod.snd) ∧
      (soldByRegion.violinSeriesOn .rounded knownSales).curveAt "South" = [] := by
  have hplot := (violins_complete soldByRegion knownSales Platform.isFaithful_rounded).2
  have hnumbers : soldByRegion.numbersOf knownSales "North" = [1, 2] := by decide +kernel
  have hnorth := hplot.violin "North" (by decide +kernel)
  rw [hnumbers] at hnorth
  have hsmall : ∀ v ∈ [1, 2], Bounded v 480 := by
    refine List.forall_mem_cons.mpr ⟨?_, List.forall_mem_singleton.mpr ?_⟩
    · exact (Bounded.ofNat (n := 1) (a := 1) (by norm_num) (by norm_num)).mono (by norm_num)
    · exact (Bounded.ofNat (n := 2) (a := 1) (by norm_num) (by norm_num)).mono (by norm_num)
  have hrange : real (quartileRange [1, 2]) = 2 ^ (-1 : ℤ) := by
    have hsorted : sorted [1, 2] = [1, 2] := List.mergeSort_of_pairwise (by decide +kernel)
    have hhalf : percentile [1, 2] 0.75 - percentile [1, 2] 0.25 = 0.5 := by decide +kernel
    have hparts : parts 0.5 = .finite .positive (2 ^ 52) (-53) (by decide) := rfl
    rw [quartileRange, hsorted, hhalf, real_of_parts hparts]
    norm_num
  have hmoderate := hnorth.moderate hsmall (by norm_num) fun _ =>
    (zpow_two_le (by norm_num)).trans_eq hrange.symm
  have hroom := hnorth.room 1 (by simp) 2 (by simp) (by decide +kernel)
  exact ⟨by decide +kernel, hnorth.full hroom, hnorth.normalised hmoderate,
    hplot.absent "South" (by decide +kernel)⟩

/-- A sale that three bandwidths do not add to. -/
def hugeSale : Table :=
  [[("region", .string "North"), ("sales", .number (.real 1e17))]]

/-- Two sales that overflow when they are added. -/
def enormousSales : Table :=
  [[("region", .string "North"), ("sales", .number (.real 1.7e308))],
    [("region", .string "North"), ("sales", .number (.real 1.7e308))]]

/-- The only violin has one point instead of 64. Where sums overflow, it has no heights. -/
theorem violins_incomplete :
    (soldByRegion.numbersOf hugeSale "North" = [1e17] ∧
      (soldByRegion.violinSeries hugeSale).curveAt "North" = [(1e17, 1)] ∧
      ((soldByRegion.violinSeries hugeSale).curveAt "North").length ≠ violinPoints) ∧
    soldByRegion.numbersOf enormousSales "North" = [1.7e308, 1.7e308] ∧
      ((soldByRegion.violinSeriesOn .rounded enormousSales).curveAt "North").map Prod.snd =
        List.replicate violinPoints (0 / 0) := by
  have hcurve : (soldByRegion.violinSeries hugeSale).curveAt "North" = [(1e17, 1)] := by
    decide +kernel
  have hnumbers : soldByRegion.numbersOf enormousSales "North" = enormous := by decide +kernel
  have hsome : enormous ≠ [] := List.cons_ne_nil _ _
  refine ⟨⟨by decide +kernel, hcurve, ?_⟩, hnumbers, ?_⟩
  · rw [hcurve]
    decide
  · rw [curveAt_violinSeriesOn, densityOf, hnumbers, if_neg hsome, map_snd_points,
      density_enormous]

end SeriesRequest

end ChartCompiler
