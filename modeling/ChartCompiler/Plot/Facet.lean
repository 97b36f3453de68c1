import ChartCompiler.Plot.Area

/-!
# Small multiples

The rows are split by the labels of a field, and each part gets a plot area in a cell of a grid.
Cell geometry is in percent of the chart.
-/

namespace ChartCompiler

open Statistics

/-- A percentage with at most two decimals. -/
def percentText (x : Float) : String :=
  Decimal.trimPlaces (Decimal.fixed 2 x) ++ "%"

structure FacetCell where
  index : Nat
  row : Nat
  col : Nat
  left : Float
  top : Float
  width : Float
  height : Float

structure FacetLayout where
  rows : Nat
  cols : Nat
  items : List FacetCell

namespace FacetLayout

/-- The number of columns for `n` cells: the one asked for, or else the least whose square is at
least `n`. -/
def columnCount (n : Nat) (wanted : Option Nat) : Nat :=
  match wanted with
  | some (c + 1) => c + 1
  | _ => ceilNat (Float.sqrt (Float.ofNat n))

/-- The grid of `n` cells of one size. -/
def of (n : Nat) (wanted : Option Nat) : FacetLayout :=
  if n = 0 then ⟨0, 0, []⟩
  else
    let cols := columnCount n wanted
    let rows := (n + cols - 1) / cols
    let width := 100 / Float.ofNat cols
    let height := 100 / Float.ofNat rows
    { rows
      cols
      items := (List.range n).map fun index => {
        index
        row := index / cols
        col := index % cols
        left := Float.ofNat (index % cols) * width
        top := Float.ofNat (index / cols) * height
        width
        height } }

@[simp]
theorem length_items (n : Nat) (wanted : Option Nat) : (of n wanted).items.length = n := by
  by_cases empty : n = 0 <;> simp [of, empty]

end FacetLayout

namespace FacetCell

/-- The blank border inside a cell. -/
def padding : Float := 2

/-- The room for a title over a plot. -/
def titleSpace : Float := 4

def grid (cell : FacetCell) (showTitle : Bool) : Grid :=
  let title := if showTitle then titleSpace else 0
  { left := percentText (cell.left + padding)
    top := percentText (cell.top + padding + title)
    width := percentText (greater (cell.width - 2 * padding) 0)
    height := percentText (greater (cell.height - 2 * padding - title) 0)
    containLabel := true }

def title (cell : FacetCell) (text : String) : Graphic where
  shape := .text
    (.expression (percentText (cell.left + cell.width / 2)))
    (.expression (percentText (cell.top + padding / 2)))
  style := { GraphicStyle.unset with text := some text, textAlign := some "center" }

end FacetCell

/-- All that the cells bring to a chart. -/
structure FacetChart where
  layout : FacetLayout
  groups : List String
  grids : List Grid
  areas : List PlotArea
  titles : List Graphic

namespace FacetChart

def series (chart : FacetChart) : List Series :=
  chart.areas.flatMap PlotArea.series

/-- The extent that covers the extents of all sets. -/
def sharedExtent? (sets : List SeriesSet) : Option (Float × Float) :=
  match sets.filterMap SeriesSet.extent with
  | [] => none
  | first :: rest =>
      some (rest.foldl (fun (a, b) (low, high) => (lesser a low, greater b high)) first)

/-- The bounds of a value axis that shows an extent. Bars include their zero line. -/
def axisBounds (chartType : ChartType) (extent : Float × Float) : Float × Float :=
  if chartType.isBar then (lesser extent.1 0, greater extent.2 0) else extent

/-- Gives an upright area's value axis the bounds that all cells share. -/
def shareBounds (chartType : ChartType) (shared : Option (Float × Float)) (area : PlotArea) :
    PlotArea :=
  match shared with
  | none => area
  | some extent =>
      let (low, high) := axisBounds chartType extent
      { area with axes.y := { area.axes.y with min := some low, max := some high } }

def build (chartType : ChartType) (encoding : Encoding) (facet : Facet) (rows : Table)
    (horizontal trendline : Bool) : FacetChart :=
  let parts := rows.partition facet.field
  let layout := FacetLayout.of parts.length facet.columnCount
  let request : SeriesRequest := {
    chartType, x := encoding.x, y := encoding.y, group := none, trendline }
  let sets := parts.map fun (_, rows) => request.build rows
  let shared := if facet.shareAxis then sharedExtent? sets else none
  { layout
    groups := parts.keys
    grids := layout.items.map (·.grid facet.showTitle)
    areas := (layout.items.zip sets).map fun (cell, set) =>
      ((shareBounds chartType shared (PlotArea.upright chartType encoding set)).oriented
        horizontal).bind cell.index
    titles :=
      if facet.showTitle then layout.items.zipWith FacetCell.title parts.keys else [] }

end FacetChart

end ChartCompiler
