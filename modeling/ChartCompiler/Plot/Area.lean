import ChartCompiler.Plot.Series

/-!
# Plot areas

A plot area is a pair of axes with the series drawn between them. It is built upright, with
categories or the first field along x and values along y, and may then be turned.
-/

namespace ChartCompiler

structure AxisPair where
  x : Axis
  y : Axis

namespace AxisPair

def upright (chartType : ChartType) (set : SeriesSet) (encoding : Encoding) : AxisPair where
  x := match set.categories with
    | some items => .categories encoding.x.displayName items
    | none => { Axis.values encoding.x.displayName with scale := some true }
  y := match chartType with
    | .histogram => .values SeriesRequest.countDimension
    | .scatter => { Axis.values encoding.y.displayName with scale := some true }
    | _ => .values encoding.y.displayName

def swap (axes : AxisPair) : AxisPair :=
  ⟨axes.y, axes.x⟩

@[simp]
theorem swap_swap (axes : AxisPair) : axes.swap.swap = axes :=
  rfl

def bindGrid (index : Nat) (axes : AxisPair) : AxisPair where
  x := { axes.x with gridIndex := some index }
  y := { axes.y with gridIndex := some index }

/-- Changes the axis that shows values: y, if x shows categories, and else x. -/
def mapValueAxis (f : Axis → Axis) (axes : AxisPair) : AxisPair :=
  if axes.x.isCategory then { axes with y := f axes.y } else { axes with x := f axes.x }

end AxisPair

namespace Series

/-- The series with its dimensions on the other axis each. -/
def swapEncode (s : Series) : Series :=
  { s with encode := s.encode.swap }

@[simp]
theorem swapEncode_swapEncode (s : Series) : s.swapEncode.swapEncode = s :=
  rfl

def bindAxes (index : Nat) (s : Series) : Series :=
  { s with xAxisIndex := some index, yAxisIndex := some index }

/-- The label that shows a point's value beyond its end. -/
def dataLabel (horizontal : Bool) : Label where
  visible := true
  position := if horizontal then .right else .top
  fontFamily := none
  fontSize := none

def withLabels (horizontal : Bool) (s : Series) : Series :=
  { s with label := some (dataLabel horizontal) }

end Series

structure PlotArea where
  axes : AxisPair
  series : List Series

namespace PlotArea

def upright (chartType : ChartType) (encoding : Encoding) (set : SeriesSet) : PlotArea where
  axes := .upright chartType set encoding
  series := set.series

/-- Exchanges the axes, and the dimensions of every series with them. -/
def turn (area : PlotArea) : PlotArea where
  axes := area.axes.swap
  series := area.series.map Series.swapEncode

/-- Turning twice changes nothing. -/
@[simp]
theorem turn_turn (area : PlotArea) : area.turn.turn = area := by
  simp [turn, Function.comp_def]

/-- The area turned, if its bars grow sideways. -/
def oriented (horizontal : Bool) (area : PlotArea) : PlotArea :=
  if horizontal then area.turn else area

def bind (index : Nat) (area : PlotArea) : PlotArea where
  axes := area.axes.bindGrid index
  series := area.series.map (Series.bindAxes index)

end PlotArea

end ChartCompiler
