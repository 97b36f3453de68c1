import ChartCompiler.Spec.Basic

/-!
# Render configurations

What the renderer is told: axes, grids, series with their data, overlays, legend, tooltip and fonts.
A part that is not given is left out of the written form.

A renderer could be told more than the compiler has to say, and only the latter is here. Every axis
and every series has a name. Axes stand to the left or to the right, labels above their bars or
beside them, and the place of a tooltip is marked by a shadow or a cross, never by a line. Marks
have a colour and no opacity, lines have no width, and data points are lists of texts, numbers,
counts and gaps. Whatever is said of all configurations is said of these.
-/

namespace ChartCompiler

inductive OneOrMany (α : Type) where
  | one (item : α)
  | many (items : List α)
  deriving Repr, DecidableEq

namespace OneOrMany

variable {α β : Type}

def toList : OneOrMany α → List α
  | one item => [item]
  | many items => items

def map (f : α → β) : OneOrMany α → OneOrMany β
  | one item => one (f item)
  | many items => many (items.map f)

def isMany : OneOrMany α → Bool
  | one _ => false
  | many _ => true

@[simp]
theorem toList_map (f : α → β) (items : OneOrMany α) :
    (items.map f).toList = items.toList.map f := by
  cases items <;> rfl

@[simp]
theorem isMany_map (f : α → β) (items : OneOrMany α) : (items.map f).isMany = items.isMany := by
  cases items <;> rfl

end OneOrMany

/-- A font as far as it is settled. -/
structure TextStyle where
  fontFamily : Option String
  fontSize : Option Float
  color : Option String

def TextStyle.unset : TextStyle :=
  ⟨none, none, none⟩

inductive AxisType where
  | category
  | value
  deriving Repr, DecidableEq

inductive AxisSide where
  | left
  | right
  deriving Repr, DecidableEq

structure Axis where
  type : AxisType
  name : String
  /-- The categories in order. -/
  data : Option (List String)
  position : Option AxisSide
  gridIndex : Option Nat
  min : Option Float
  max : Option Float
  /-- The axis need not contain zero. -/
  scale : Option Bool
  axisLabel : TextStyle
  nameTextStyle : TextStyle

namespace Axis

def values (name : String) : Axis where
  type := .value
  name
  data := none
  position := none
  gridIndex := none
  min := none
  max := none
  scale := none
  axisLabel := .unset
  nameTextStyle := .unset

def categories (name : String) (items : List String) : Axis :=
  { values name with type := .category, data := some items }

def isCategory (axis : Axis) : Bool :=
  axis.type = .category

end Axis

/-- The box of one plot, in percent of the chart. -/
structure Grid where
  left : String
  top : String
  width : String
  height : String
  containLabel : Bool
  deriving Repr, DecidableEq

inductive SeriesType where
  | bar
  | line
  | scatter
  | boxplot
  | custom
  deriving Repr, DecidableEq

structure Encode where
  x : OneOrMany String
  y : OneOrMany String
  deriving Repr, DecidableEq

namespace Encode

def pair (x y : String) : Encode :=
  ⟨.one x, .one y⟩

def swap (e : Encode) : Encode :=
  ⟨e.y, e.x⟩

@[simp]
theorem swap_swap (e : Encode) : e.swap.swap = e :=
  rfl

end Encode

inductive Datum where
  | text (value : String)
  | number (value : Float)
  | count (value : Nat)
  /-- No value is known. -/
  | gap

/-- A data point has one entry for each dimension of its series. -/
abbrev Point := List Datum

inductive LabelPosition where
  | top
  | right
  deriving Repr, DecidableEq

structure Label where
  visible : Bool
  position : LabelPosition
  fontFamily : Option String
  fontSize : Option Float

structure LineStyle where
  color : Option String
  dash : Option (List Float)

structure Series where
  type : SeriesType
  name : String
  dimensions : List String
  encode : Encode
  data : List Point
  xAxisIndex : Option Nat
  yAxisIndex : Option Nat
  stack : Option String
  /-- The area under the line is filled. -/
  fillsArea : Bool
  /-- The colour of the marks. -/
  itemColor : Option String
  lineStyle : Option LineStyle
  showSymbol : Option Bool
  label : Option Label
  /-- The drawing routine of a custom series. -/
  renderItem : Option String
  z : Option Nat

/-- A series with nothing but its data. -/
def Series.plain (type : SeriesType) (name : String) (dimensions : List String) (encode : Encode)
    (data : List Point) : Series where
  type
  name
  dimensions
  encode
  data
  xAxisIndex := none
  yAxisIndex := none
  stack := none
  fillsArea := false
  itemColor := none
  lineStyle := none
  showSymbol := none
  label := none
  renderItem := none
  z := none

structure GraphicStyle where
  text : Option String
  fill : Option String
  stroke : Option String
  lineWidth : Option Float
  lineDash : Option (List Float)
  textAlign : Option String
  fontFamily : Option String
  fontSize : Option Float

def GraphicStyle.unset : GraphicStyle where
  text := none
  fill := none
  stroke := none
  lineWidth := none
  lineDash := none
  textAlign := none
  fontFamily := none
  fontSize := none

inductive GraphicShape where
  | text (left top : Coord)
  | line (x1 y1 x2 y2 : Coord)
  | rect (x y width height : Coord)

def GraphicShape.kind : GraphicShape → AnnotationKind
  | text .. => .text
  | line .. => .line
  | rect .. => .rect

structure Graphic where
  shape : GraphicShape
  style : GraphicStyle

structure Legend where
  visible : Bool
  data : Option (List String)
  textStyle : TextStyle

inductive TooltipTrigger where
  | item
  | axis
  deriving Repr, DecidableEq

/-- What marks the place on the axis that a tooltip is about. -/
inductive AxisPointer where
  | shadow
  | cross
  deriving Repr, DecidableEq

structure Tooltip where
  trigger : TooltipTrigger
  axisPointer : Option AxisPointer
  textStyle : TextStyle

structure RenderConfig where
  xAxis : OneOrMany Axis
  yAxis : OneOrMany Axis
  grid : Option (List Grid)
  series : List Series
  graphic : Option (List Graphic)
  legend : Legend
  tooltip : Tooltip
  color : List String
  textStyle : TextStyle

end ChartCompiler
