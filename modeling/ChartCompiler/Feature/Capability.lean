import ChartCompiler.Spec.Basic

/-!
# What each chart type can do
-/

namespace ChartCompiler

/-- The extras that a chart type supports, and the kind of field that suits its first channel. -/
structure Capabilities where
  y2 : Bool
  facet : Bool
  color : Bool
  errorBar : Bool
  horizontal : Bool
  suggestedXType : SemanticType
  deriving Repr, DecidableEq

def ChartType.capabilities : ChartType → Capabilities
  --                y2     facet  color  error  horizontal
  | .bar =>        ⟨true,  true,  true,  true,  true,  .nominal⟩
  | .groupedBar => ⟨false, false, true,  false, true,  .nominal⟩
  | .stackedBar => ⟨false, false, true,  false, true,  .nominal⟩
  | .line =>       ⟨true,  true,  true,  true,  false, .temporal⟩
  | .area =>       ⟨true,  true,  true,  false, false, .temporal⟩
  | .scatter =>    ⟨false, true,  true,  false, false, .quantitative⟩
  | .histogram =>  ⟨false, true,  false, false, false, .quantitative⟩
  | .boxplot =>    ⟨false, true,  false, false, false, .nominal⟩
  | .violin =>     ⟨false, true,  false, false, false, .nominal⟩
  | .errorBar =>   ⟨false, false, false, true,  false, .nominal⟩

end ChartCompiler
