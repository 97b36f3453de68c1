import ChartCompiler.Config.Typography
import Mathlib.Data.List.Forall2
import Mathlib.Data.Option.Basic

/-!
# Fonts fill gaps

What it means that a theme fills the gaps of a configuration, element by element: a family or a size
that is there stays, one that is missing is the theme's, and the rest of the element is as it was.
After one theme no gap is left, so a second one finds nothing to fill but the font at the top:
`RenderConfig.withTheme_fills`.
-/

namespace ChartCompiler

/-- The family and the size of a text, as far as they are settled. -/
structure FontChoice where
  family : Option String
  size : Option Float

namespace FontChoice

structure IsSettled (font : FontChoice) : Prop where
  family : ∃ family, font.family = some family
  size : ∃ size, font.size = some size

/-- What is settled before is kept, and what is not is the theme's. -/
structure IsFilledBy (theme : Theme) (before after : FontChoice) : Prop where
  family_kept : ∀ family, before.family = some family → after.family = some family
  family_filled : before.family = none → after.family = some theme.fontFamily
  size_kept : ∀ size, before.size = some size → after.size = some size
  size_filled : before.size = none → after.size = some theme.fontSize

def fill (theme : Theme) (font : FontChoice) : FontChoice :=
  ⟨font.family.or (some theme.fontFamily), font.size.or (some theme.fontSize)⟩

theorem isSettled_fill (theme : Theme) (font : FontChoice) : (font.fill theme).IsSettled := by
  obtain ⟨family, size⟩ := font
  constructor
  · cases family with
    | none => exact ⟨_, rfl⟩
    | some given => exact ⟨given, rfl⟩
  · cases size with
    | none => exact ⟨_, rfl⟩
    | some given => exact ⟨given, rfl⟩

theorem isFilledBy_fill (theme : Theme) (font : FontChoice) :
    font.IsFilledBy theme (font.fill theme) := by
  obtain ⟨family, size⟩ := font
  refine ⟨?_, ?_, ?_, ?_⟩
  · rintro given rfl
    rfl
  · rintro rfl
    rfl
  · rintro given rfl
    rfl
  · rintro rfl
    rfl

end FontChoice

/-! ## Where fonts stand -/

def TextStyle.font (t : TextStyle) : FontChoice :=
  ⟨t.fontFamily, t.fontSize⟩

def Label.font (l : Label) : FontChoice :=
  ⟨l.fontFamily, l.fontSize⟩

def Graphic.font (g : Graphic) : FontChoice :=
  ⟨g.style.fontFamily, g.style.fontSize⟩

/-! ## No gap is left -/

structure RenderConfig.IsSettled (c : RenderConfig) : Prop where
  axisLabels : ∀ a ∈ c.xAxis.toList ++ c.yAxis.toList, a.axisLabel.font.IsSettled
  axisNames : ∀ a ∈ c.xAxis.toList ++ c.yAxis.toList, a.nameTextStyle.font.IsSettled
  legend : c.legend.textStyle.font.IsSettled
  tooltip : c.tooltip.textStyle.font.IsSettled
  labels : ∀ s ∈ c.series, ∀ l ∈ s.label, l.font.IsSettled
  graphics : ∀ graphics ∈ c.graphic, ∀ g ∈ graphics, g.font.IsSettled

theorem RenderConfig.isSettled_withTheme (theme : Theme) (c : RenderConfig) :
    (c.withTheme theme).IsSettled := by
  have haxes : ∀ a ∈ (c.withTheme theme).xAxis.toList ++ (c.withTheme theme).yAxis.toList,
      ∃ bare : Axis, a = bare.fillFonts theme := by
    intro a ha
    simp only [withTheme, OneOrMany.toList_map, ← List.map_append] at ha
    obtain ⟨bare, -, rfl⟩ := List.mem_map.mp ha
    exact ⟨bare, rfl⟩
  refine ⟨fun a ha => ?_, fun a ha => ?_, ?_, ?_, fun s hs l hl => ?_,
    fun graphics hgraphics g hg => ?_⟩
  · obtain ⟨bare, rfl⟩ := haxes a ha
    exact FontChoice.isSettled_fill theme bare.axisLabel.font
  · obtain ⟨bare, rfl⟩ := haxes a ha
    exact FontChoice.isSettled_fill theme bare.nameTextStyle.font
  · exact FontChoice.isSettled_fill theme c.legend.textStyle.font
  · exact FontChoice.isSettled_fill theme c.tooltip.textStyle.font
  · obtain ⟨bare, -, rfl⟩ := List.mem_map.mp hs
    obtain ⟨label, -, rfl⟩ := Option.mem_map.mp hl
    exact FontChoice.isSettled_fill theme label.font
  · obtain ⟨bare, -, rfl⟩ := Option.mem_map.mp hgraphics
    obtain ⟨graphic, -, rfl⟩ := List.mem_map.mp hg
    exact FontChoice.isSettled_fill theme graphic.font

/-! ## Nothing else changes -/

/-- Only the gaps of the font differ; the colour is the same. -/
structure TextStyle.IsFilledBy (theme : Theme) (before after : TextStyle) : Prop where
  font : before.font.IsFilledBy theme after.font
  color : after.color = before.color

structure Axis.IsFilledBy (theme : Theme) (before after : Axis) : Prop where
  axisLabel : before.axisLabel.IsFilledBy theme after.axisLabel
  nameTextStyle : before.nameTextStyle.IsFilledBy theme after.nameTextStyle
  rest : after = { before with
    axisLabel := after.axisLabel
    nameTextStyle := after.nameTextStyle }

structure Label.IsFilledBy (theme : Theme) (before after : Label) : Prop where
  font : before.font.IsFilledBy theme after.font
  rest : after = { before with fontFamily := after.fontFamily, fontSize := after.fontSize }

/-- Labels are there before and after or not at all, and only gaps in their font differ. -/
structure Series.IsFilledBy (theme : Theme) (before after : Series) : Prop where
  label : Option.Rel (Label.IsFilledBy theme) before.label after.label
  rest : after = { before with label := after.label }

structure Graphic.IsFilledBy (theme : Theme) (before after : Graphic) : Prop where
  font : before.font.IsFilledBy theme after.font
  rest : after = { before with style := { before.style with
    fontFamily := after.style.fontFamily
    fontSize := after.style.fontSize } }

/-- The same form, with related items in the same places. -/
inductive OneOrMany.Pointwise {α : Type} (r : α → α → Prop) : OneOrMany α → OneOrMany α → Prop
  | one {before after : α} (item : r before after) : Pointwise r (.one before) (.one after)
  | many {before after : List α} (items : List.Forall₂ r before after) :
      Pointwise r (.many before) (.many after)

/-- Only gaps in fonts differ, but for the font at the top, which is the theme's. -/
structure RenderConfig.IsFilledBy (theme : Theme) (before after : RenderConfig) : Prop where
  xAxis : before.xAxis.Pointwise (Axis.IsFilledBy theme) after.xAxis
  yAxis : before.yAxis.Pointwise (Axis.IsFilledBy theme) after.yAxis
  grid : after.grid = before.grid
  series : List.Forall₂ (Series.IsFilledBy theme) before.series after.series
  graphic : Option.Rel (List.Forall₂ (Graphic.IsFilledBy theme)) before.graphic after.graphic
  legendFont : before.legend.textStyle.IsFilledBy theme after.legend.textStyle
  legend : after.legend = { before.legend with textStyle := after.legend.textStyle }
  tooltipFont : before.tooltip.textStyle.IsFilledBy theme after.tooltip.textStyle
  tooltip : after.tooltip = { before.tooltip with textStyle := after.tooltip.textStyle }
  color : after.color = before.color
  textStyle : after.textStyle =
    ⟨some theme.fontFamily, some theme.fontSize, some theme.textColor⟩

theorem OneOrMany.pointwise_map {α : Type} {r : α → α → Prop} {f : α → α}
    (hf : ∀ a, r a (f a)) (items : OneOrMany α) : items.Pointwise r (items.map f) := by
  cases items with
  | one item => exact .one (hf item)
  | many items =>
      exact .many (List.forall₂_map_right_iff.mpr (List.forall₂_same.mpr fun a _ => hf a))

section Fills

variable (theme : Theme)

theorem TextStyle.isFilledBy_fill (t : TextStyle) : t.IsFilledBy theme (t.fill theme) :=
  ⟨FontChoice.isFilledBy_fill theme t.font, rfl⟩

theorem Axis.isFilledBy_fillFonts (a : Axis) : a.IsFilledBy theme (a.fillFonts theme) :=
  ⟨a.axisLabel.isFilledBy_fill theme, a.nameTextStyle.isFilledBy_fill theme, rfl⟩

theorem Label.isFilledBy_fillFonts (l : Label) : l.IsFilledBy theme (l.fillFonts theme) :=
  ⟨FontChoice.isFilledBy_fill theme l.font, rfl⟩

theorem Series.isFilledBy_fillFonts (s : Series) : s.IsFilledBy theme (s.fillFonts theme) := by
  refine ⟨?_, rfl⟩
  unfold fillFonts
  cases s.label with
  | none => exact .none
  | some label => exact .some (label.isFilledBy_fillFonts theme)

theorem Graphic.isFilledBy_fillFonts (g : Graphic) : g.IsFilledBy theme (g.fillFonts theme) :=
  ⟨FontChoice.isFilledBy_fill theme g.font, rfl⟩

theorem RenderConfig.isFilledBy_withTheme (c : RenderConfig) :
    c.IsFilledBy theme (c.withTheme theme) where
  xAxis := OneOrMany.pointwise_map (Axis.isFilledBy_fillFonts theme) c.xAxis
  yAxis := OneOrMany.pointwise_map (Axis.isFilledBy_fillFonts theme) c.yAxis
  grid := rfl
  series := List.forall₂_map_right_iff.mpr
    (List.forall₂_same.mpr fun s _ => s.isFilledBy_fillFonts theme)
  graphic := by
    unfold withTheme
    cases c.graphic with
    | none => exact .none
    | some graphics =>
        exact .some (List.forall₂_map_right_iff.mpr
          (List.forall₂_same.mpr fun g _ => g.isFilledBy_fillFonts theme))
  legendFont := c.legend.textStyle.isFilledBy_fill theme
  legend := rfl
  tooltipFont := c.tooltip.textStyle.isFilledBy_fill theme
  tooltip := rfl
  color := rfl
  textStyle := rfl

end Fills

/-! ## A second theme -/

section Twice

variable (first second : Theme)

theorem Axis.fillFonts_fillFonts (a : Axis) :
    (a.fillFonts first).fillFonts second = a.fillFonts first := by
  simp only [fillFonts, TextStyle.fill_fill]

theorem Label.fillFonts_fillFonts (l : Label) :
    (l.fillFonts first).fillFonts second = l.fillFonts first := by
  cases l with
  | mk visible position family size => cases family <;> cases size <;> rfl

theorem Series.fillFonts_fillFonts (s : Series) :
    (s.fillFonts first).fillFonts second = s.fillFonts first := by
  simp only [fillFonts, Option.map_map, Function.comp_def, Label.fillFonts_fillFonts]

theorem Graphic.fillFonts_fillFonts (g : Graphic) :
    (g.fillFonts first).fillFonts second = g.fillFonts first := by
  cases g with
  | mk shape style =>
      cases style with
      | mk text fill stroke width dash align family size => cases family <;> cases size <;> rfl

theorem OneOrMany.map_map_eq {α : Type} {f g : α → α} (hfg : ∀ a, g (f a) = f a)
    (items : OneOrMany α) : (items.map f).map g = items.map f := by
  cases items with
  | one item => exact congrArg one (hfg item)
  | many items =>
      simp only [map, List.map_map, Function.comp_def, hfg]

/-- Only the font at the top is left to the second theme. -/
theorem RenderConfig.withTheme_withTheme (c : RenderConfig) :
    (c.withTheme first).withTheme second =
      { c.withTheme first with
        textStyle := ⟨some second.fontFamily, some second.fontSize, some second.textColor⟩ } := by
  have haxes := OneOrMany.map_map_eq (Axis.fillFonts_fillFonts first second)
  simp only [withTheme, haxes, List.map_map, Option.map_map, Function.comp_def,
    Series.fillFonts_fillFonts, Graphic.fillFonts_fillFonts, TextStyle.fill_fill]
  rfl

end Twice

/-- For every configuration and all themes: once a theme is applied, every axis label, axis name,
legend, tooltip, label of a series and graphic has a family and a size. Those that were there are
kept, the others are the theme's, the font at the top is the theme's, and all else is as it was.
A second theme then changes the font at the top only. -/
theorem RenderConfig.withTheme_fills (c : RenderConfig) (first second : Theme) :
    (c.withTheme first).IsSettled ∧ c.IsFilledBy first (c.withTheme first) ∧
      (c.withTheme first).withTheme second =
        { c.withTheme first with
          textStyle := ⟨some second.fontFamily, some second.fontSize, some second.textColor⟩ } :=
  ⟨isSettled_withTheme first c, isFilledBy_withTheme first c,
    withTheme_withTheme first second c⟩

end ChartCompiler
