import ChartCompiler.Config.Basic
import ChartCompiler.Spec.Writer

/-!
# Render configurations as JSON

Members stand in the order of the structures, and what is not given is left out.
-/

namespace ChartCompiler

namespace Json

/-- A member, if its value is given. -/
def given {α : Type} (name : String) (write : α → Json) (value : Option α) : List (String × Json) :=
  match value with
  | some x => [(name, write x)]
  | none => []

end Json

open Json (given)

/-- An item stands for itself, several items form a list. -/
def OneOrMany.toJson {α : Type} (write : α → Json) : OneOrMany α → Json
  | one item => write item
  | many items => .array (items.map write)

def TextStyle.toJson (t : TextStyle) : Json :=
  .object (given "fontFamily" .string t.fontFamily ++ given "fontSize" .float t.fontSize ++
    given "color" .string t.color)

def AxisType.name : AxisType → String
  | category => "category"
  | value => "value"

def AxisSide.name : AxisSide → String
  | left => "left"
  | right => "right"

def Axis.toJson (a : Axis) : Json :=
  .object ([("type", .string a.type.name), ("name", .string a.name)] ++
    given "data" .strings a.data ++
    given "position" (fun p => .string p.name) a.position ++
    given "gridIndex" .nat a.gridIndex ++
    given "min" .float a.min ++
    given "max" .float a.max ++
    given "scale" .bool a.scale ++
    [("axisLabel", a.axisLabel.toJson), ("nameTextStyle", a.nameTextStyle.toJson)])

def Grid.toJson (g : Grid) : Json :=
  .object [
    ("left", .string g.left),
    ("top", .string g.top),
    ("width", .string g.width),
    ("height", .string g.height),
    ("containLabel", .bool g.containLabel)]

def SeriesType.name : SeriesType → String
  | bar => "bar"
  | line => "line"
  | scatter => "scatter"
  | boxplot => "boxplot"
  | custom => "custom"

def Encode.toJson (e : Encode) : Json :=
  .object [("x", e.x.toJson .string), ("y", e.y.toJson .string)]

def Datum.toJson : Datum → Json
  | text s => .string s
  | number x => .float x
  | count n => .nat n
  | gap => .null

def Point.toJson (p : Point) : Json :=
  .array (p.map Datum.toJson)

def LabelPosition.name : LabelPosition → String
  | top => "top"
  | right => "right"

def Label.toJson (l : Label) : Json :=
  .object ([("show", .bool l.visible), ("position", .string l.position.name)] ++
    given "fontFamily" .string l.fontFamily ++
    given "fontSize" .float l.fontSize)

def LineStyle.toJson (s : LineStyle) : Json :=
  .object (given "color" .string s.color ++ given "type" (fun d => .array (d.map .float)) s.dash)

def Series.toJson (s : Series) : Json :=
  .object ([("type", .string s.type.name), ("name", .string s.name),
      ("dimensions", .strings s.dimensions), ("encode", s.encode.toJson),
      ("data", .array (s.data.map Point.toJson))] ++
    given "xAxisIndex" .nat s.xAxisIndex ++
    given "yAxisIndex" .nat s.yAxisIndex ++
    given "stack" .string s.stack ++
    (if s.fillsArea then [("areaStyle", .object [])] else []) ++
    given "itemStyle" (fun c => .object [("color", .string c)]) s.itemColor ++
    given "lineStyle" LineStyle.toJson s.lineStyle ++
    given "showSymbol" .bool s.showSymbol ++
    given "label" Label.toJson s.label ++
    given "renderItem" .string s.renderItem ++
    given "z" .nat s.z)

def GraphicStyle.toJson (s : GraphicStyle) : Json :=
  .object (given "text" .string s.text ++
    given "fill" .string s.fill ++
    given "stroke" .string s.stroke ++
    given "lineWidth" .float s.lineWidth ++
    given "lineDash" (fun d => .array (d.map .float)) s.lineDash ++
    given "textAlign" .string s.textAlign ++
    given "fontFamily" .string s.fontFamily ++
    given "fontSize" .float s.fontSize)

/-- The members that say where an overlay stands. A text has them beside its style, the other shapes
in an object of their own. -/
def GraphicShape.members : GraphicShape → List (String × Json)
  | text left top => [("left", left.toJson), ("top", top.toJson)]
  | line x1 y1 x2 y2 =>
      [("shape", .object [("x1", x1.toJson), ("y1", y1.toJson), ("x2", x2.toJson),
        ("y2", y2.toJson)])]
  | rect x y width height =>
      [("shape", .object [("x", x.toJson), ("y", y.toJson), ("width", width.toJson),
        ("height", height.toJson)])]

def Graphic.toJson (g : Graphic) : Json :=
  .object (("type", .string g.shape.kind.name) :: g.shape.members ++ [("style", g.style.toJson)])

def Legend.toJson (l : Legend) : Json :=
  .object ([("show", .bool l.visible)] ++ given "data" .strings l.data ++
    [("textStyle", l.textStyle.toJson)])

def TooltipTrigger.name : TooltipTrigger → String
  | item => "item"
  | axis => "axis"

def AxisPointer.name : AxisPointer → String
  | shadow => "shadow"
  | cross => "cross"

def Tooltip.toJson (t : Tooltip) : Json :=
  .object ([("trigger", .string t.trigger.name)] ++
    given "axisPointer" (fun p => .object [("type", .string p.name)]) t.axisPointer ++
    [("textStyle", t.textStyle.toJson)])

def RenderConfig.toJson (c : RenderConfig) : Json :=
  .object ([("xAxis", c.xAxis.toJson Axis.toJson), ("yAxis", c.yAxis.toJson Axis.toJson)] ++
    given "grid" (fun g => .array (g.map Grid.toJson)) c.grid ++
    [("series", .array (c.series.map Series.toJson))] ++
    given "graphic" (fun g => .array (g.map Graphic.toJson)) c.graphic ++
    [("legend", c.legend.toJson), ("tooltip", c.tooltip.toJson), ("color", .strings c.color),
      ("textStyle", c.textStyle.toJson)])

end ChartCompiler
