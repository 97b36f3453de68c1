import ChartCompiler.Config.Basic
import ChartCompiler.Expression.Dash
import ChartCompiler.Plot.Facet

/-!
# Annotations as graphics
-/

namespace ChartCompiler

namespace Coord

/-- The corner of the chart. -/
def origin : Coord :=
  .pixels 0

/-- The distance from one coordinate to another in the unit that they share. Without two such
coordinates it is zero. -/
def distance (start stop : Option Coord) : Coord :=
  match start.bind position?, stop.bind position? with
  | some (.pixels a), some (.pixels b) => .pixels (b - a)
  | some (.percent a), some (.percent b) => .expression (percentText (b - a))
  | _, _ => origin

end Coord

namespace Annotation

/-- Where the annotation is drawn. A text without a place stands in the middle, other shapes start
from the corner. -/
def shape (a : Annotation) : GraphicShape :=
  match a.kind with
  | .text => .text (a.x.getD (.expression "center")) (a.y.getD (.expression "middle"))
  | .line => .line (a.x.getD .origin) (a.y.getD .origin) (a.x2.getD .origin) (a.y2.getD .origin)
  | .rect =>
      .rect (a.x.getD .origin) (a.y.getD .origin) (Coord.distance a.x a.x2)
        (Coord.distance a.y a.y2)

def style (a : Annotation) : GraphicStyle :=
  match a.kind with
  | .text => { GraphicStyle.unset with text := a.text, fill := a.color }
  | .line =>
      { GraphicStyle.unset with
        stroke := a.color
        lineWidth := some 1
        lineDash := a.strokeDash.bind StrokeDash.pattern? }
  | .rect =>
      { GraphicStyle.unset with
        fill := some "transparent"
        stroke := a.color
        lineWidth := some 1 }

def graphic (a : Annotation) : Graphic :=
  ⟨a.shape, a.style⟩

end Annotation

end ChartCompiler
