import ChartCompiler.Look.Palette
import ChartCompiler.Plot.Area

/-!
# Secondary axes

A second field is drawn as a line over the chart, against a value axis of its own on the right.
-/

namespace ChartCompiler

/-- The two value axes and the line on the second. -/
structure DualAxis where
  yAxes : List Axis
  series : Series

/-- The slot of the palette whose colour the line has. -/
def DualAxis.colorSlot : Nat := 1

/-- Puts the primary axis on the left and a second one on the right. The line has a point for each
category of the chart, with gaps where the second field has no numbers. -/
def DualAxis.build (primary : Axis) (x y2 : FieldDef) (categories : List String) (rows : Table)
    (colors : List String) : DualAxis :=
  let means := meansFor categories (rows.groupValues x.field y2.field)
  let color := Palette.pick? colors colorSlot
  { yAxes := [
      { primary with position := some .left },
      { Axis.values y2.displayName with position := some .right }]
    series :=
      { Series.plain .line y2.displayName [x.field, y2.field] (.pair x.field y2.field)
          (categoryPoints categories means) with
        yAxisIndex := some 1
        itemColor := color
        lineStyle := color.map fun c => { color := some c, dash := none } } }

end ChartCompiler
