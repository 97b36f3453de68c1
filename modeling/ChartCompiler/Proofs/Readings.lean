import ChartCompiler.Proofs.SmallMultiples

/-!
# What is read off series wherever they stand

Turning an area moves the dimensions of its series to other axes, a cell binds series to axes of
its own, and finishing a series settles its labels. A reading that none of this changes can be
taken off a configuration as off the requests that it was built from.
-/

namespace ChartCompiler

namespace Series

/-- What is read off a series does not depend on the axes that it is drawn along, nor on its
labels. -/
structure IsIntrinsic {α : Type} (read : Series → α) : Prop where
  turn : ∀ s : Series, read s.swapEncode = read s
  bind : ∀ (index : Nat) (s : Series), read (s.bindAxes index) = read s
  label : ∀ (label : Option Label) (s : Series), read { s with label } = read s

namespace IsIntrinsic

variable {α : Type} {read : Series → α} (hread : IsIntrinsic read)
include hread

theorem map_oriented (horizontal : Bool) (area : PlotArea) :
    (area.oriented horizontal).series.map read = area.series.map read := by
  cases horizontal with
  | false => rfl
  | true =>
      change (area.series.map Series.swapEncode).map read = _
      rw [List.map_map]
      exact List.map_congr_left fun s _ => hread.turn s

theorem map_present (spec : ChartSpec) (r : Resolution) (figure : Figure) :
    (spec.present r figure).series.map read = figure.series.map read := by
  rw [ChartSpec.series_present, List.map_map]
  apply List.map_congr_left
  intro s _
  dsimp only [Function.comp]
  rw [ChartSpec.finish_eq]
  exact hread.label _ s

/-- Small multiples show of each part what its plot shows alone. -/
theorem map_facet {spec : ChartSpec} (hactive : spec.resolution.isActive .facet = true)
    {facet : Facet} (hfacet : spec.facet = some facet) (rows : Table) :
    (spec.config rows).series.map read =
      (rows.partition facet.field).flatMap fun part =>
        (spec.plainRequest.build part.2).series.map read := by
  have hcell (shared : Option (Float × Float)) (index : Nat) (part : Table) :
      (FacetChart.cellArea spec shared (spec.resolution.isActive .horizontal) index
        part).series.map read = (spec.plainRequest.build part).series.map read := by
    rw [series_cellArea, List.map_map]
    refine (List.map_congr_left fun s _ => hread.bind index s).trans ?_
    exact hread.map_oriented _ (spec.plainArea part)
  rw [ChartSpec.config_facet hactive hfacet, hread.map_present, Figure.ofFacets]
  dsimp only
  rw [FacetChart.series, FacetChart.areas_build, List.map_flatMap, List.flatMap_def,
    List.flatMap_def, map_mapIdx]
  refine congrArg List.flatten ?_
  apply List.ext_getElem
  · simp
  · intro index _ _
    rw [List.getElem_mapIdx, List.getElem_map]
    exact hcell _ index _

end IsIntrinsic

end Series

namespace ChartSpec

/-- The series of a single plot, whose rows a colour may split. -/
def splitRequest (spec : ChartSpec) : SeriesRequest :=
  { spec.plainRequest with
    group := if spec.resolution.isActive .colorGroup then spec.encoding.color else none }

end ChartSpec

/-- Where there are no error bars, no parts and no secondary axis, a configuration shows one
plot. -/
theorem Series.IsIntrinsic.map_single {α : Type} {read : Series → α} (hread : IsIntrinsic read)
    {spec : ChartSpec} (herror : spec.resolution.isActive .errorBar = false)
    (hfacet : spec.resolution.isActive .facet = false)
    (hdual : spec.resolution.isActive .dualAxis = false) (rows : Table) :
    (spec.config rows).series.map read = (spec.splitRequest.build rows).series.map read := by
  rw [ChartSpec.config_eq, hread.map_present, ChartSpec.figure, ChartSpec.plainFigure, herror,
    hfacet, hdual]
  exact hread.map_oriented _ _

end ChartCompiler
