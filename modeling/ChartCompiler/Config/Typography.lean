import ChartCompiler.Config.Basic
import ChartCompiler.Look.Theme

/-!
# Fonts in a configuration

`RenderConfig.withTheme` gives every text a font. What already has a family or a size keeps it.
-/

namespace ChartCompiler

/-- The theme's font, whole. -/
def Theme.textStyle (theme : Theme) : TextStyle where
  fontFamily := some theme.fontFamily
  fontSize := some theme.fontSize
  color := some theme.textColor

/-- A font with its gaps filled from a theme. The colour is left as it is. -/
def TextStyle.fill (theme : Theme) (t : TextStyle) : TextStyle :=
  { t with
    fontFamily := t.fontFamily.or (some theme.fontFamily)
    fontSize := t.fontSize.or (some theme.fontSize) }

/-- A font without gaps stays, whatever the theme. -/
@[simp]
theorem TextStyle.fill_fill (first second : Theme) (t : TextStyle) :
    (t.fill first).fill second = t.fill first := by
  cases t with
  | mk family size color => cases family <;> cases size <;> rfl

def Axis.fillFonts (theme : Theme) (a : Axis) : Axis :=
  { a with
    axisLabel := a.axisLabel.fill theme
    nameTextStyle := a.nameTextStyle.fill theme }

def Label.fillFonts (theme : Theme) (l : Label) : Label :=
  { l with
    fontFamily := l.fontFamily.or (some theme.fontFamily)
    fontSize := l.fontSize.or (some theme.fontSize) }

/-- A series with the font of its labels filled, if it has labels. -/
def Series.fillFonts (theme : Theme) (s : Series) : Series :=
  { s with label := s.label.map (Label.fillFonts theme) }

def Graphic.fillFonts (theme : Theme) (g : Graphic) : Graphic :=
  { g with style := { g.style with
    fontFamily := g.style.fontFamily.or (some theme.fontFamily)
    fontSize := g.style.fontSize.or (some theme.fontSize) } }

/-- The configuration with the theme's font at the top and in every gap. -/
def RenderConfig.withTheme (theme : Theme) (c : RenderConfig) : RenderConfig :=
  { c with
    xAxis := c.xAxis.map (Axis.fillFonts theme)
    yAxis := c.yAxis.map (Axis.fillFonts theme)
    series := c.series.map (Series.fillFonts theme)
    graphic := c.graphic.map (List.map (Graphic.fillFonts theme))
    legend := { c.legend with textStyle := c.legend.textStyle.fill theme }
    tooltip := { c.tooltip with textStyle := c.tooltip.textStyle.fill theme }
    textStyle := theme.textStyle }

end ChartCompiler
