import ChartCompiler.Look.Palette
import ChartCompiler.Spec.Basic

/-!
# Themes

A theme settles every wish of a style. What the style does not give, or gives in a form that makes
no sense, comes from its preset.
-/

namespace ChartCompiler

structure PresetLook where
  fontFamily : String
  fontSize : Float
  textColor : String
  colors : List String

def Preset.look : Preset → PresetLook
  | .standard => {
      fontFamily := "sans-serif"
      fontSize := 12
      textColor := "#333333"
      colors := ["#5470c6", "#91cc75", "#fac858", "#ee6666", "#73c0de", "#3ba272", "#fc8452",
        "#9a60b4", "#ea7ccc"] }
  | .nature => {
      fontFamily := "Arial"
      fontSize := 10
      textColor := "#000000"
      colors := ["#e64b35", "#4dbbd5", "#00a087", "#3c5488", "#f39b7f", "#8491b4", "#91d1c2",
        "#dc0000"] }
  | .science => {
      fontFamily := "Helvetica"
      fontSize := 10
      textColor := "#000000"
      colors := ["#3b4992", "#ee0000", "#008b45", "#631879", "#008280", "#bb0021", "#5f559b",
        "#a20056"] }
  | .apa => {
      fontFamily := "Times New Roman"
      fontSize := 12
      textColor := "#000000"
      colors := ["#1f1f1f", "#4d4d4d", "#7f7f7f", "#b3b3b3"] }
  | .grayscale => {
      fontFamily := "sans-serif"
      fontSize := 12
      textColor := "#252525"
      colors := ["#252525", "#525252", "#737373", "#969696", "#bdbdbd", "#d9d9d9"] }

/-- A style with every wish settled. -/
structure Theme where
  fontFamily : String
  fontSize : Float
  textColor : String
  palette : List String
  showDataLabels : Bool

namespace Theme

/-- The colours of a chart: those given, else those of a known scheme, else the preset's. -/
def chooseColors (colors : Option (List String)) (scheme : Option String) (preset : Preset) :
    List String :=
  match colors with
  | some (first :: rest) => first :: rest
  | _ =>
      match scheme.bind Palette.find? with
      | some palette => palette.colors
      | none => preset.look.colors

/-- A font family that is not blank, without white space at its ends. -/
def chooseFamily (family : Option String) (preset : Preset) : String :=
  match family.map fun f => trim f.toList with
  | some (first :: rest) => String.ofList (first :: rest)
  | _ => preset.look.fontFamily

/-- A font size that is a positive number. -/
def chooseSize (size : Option Float) (preset : Preset) : Float :=
  match size with
  | some s => if s.isFinite && 0 < s then s else preset.look.fontSize
  | none => preset.look.fontSize

end Theme

def Style.theme (style : Style) : Theme where
  fontFamily := Theme.chooseFamily (style.font.bind Font.family) style.preset
  fontSize := Theme.chooseSize (style.font.bind Font.size) style.preset
  textColor := style.preset.look.textColor
  palette := Theme.chooseColors style.colors style.scheme style.preset
  showDataLabels := style.showDataLabels

end ChartCompiler
