import ChartCompiler.Feature.Capability
import ChartCompiler.Text.Blank

/-!
# Which features win

Some features exclude each other. A rule names a feature and those that give way to it. Rules apply
in order, each only while its winner is still active, and giving way is no error.
-/

namespace ChartCompiler

/-- The features of a chart that may exclude each other. -/
inductive Feature where
  | errorBar
  | facet
  | dualAxis
  | colorGroup
  | horizontal
  deriving Repr, DecidableEq

namespace Feature

def all : List Feature :=
  [errorBar, facet, dualAxis, colorGroup, horizontal]

def name : Feature → String
  | errorBar => "errorBar"
  | facet => "facet"
  | dualAxis => "y2"
  | colorGroup => "color"
  | horizontal => "horizontal"

end Feature

/-- A feature and those that give way to it. -/
structure Rule where
  winner : Feature
  suppresses : List Feature
  deriving Repr, DecidableEq

def Rule.standard : List Rule := [
  ⟨.errorBar, [.facet, .dualAxis, .colorGroup, .horizontal]⟩,
  ⟨.facet, [.dualAxis, .colorGroup]⟩,
  ⟨.horizontal, [.dualAxis]⟩,
  ⟨.dualAxis, [.colorGroup]⟩]

/-- Which features stay, and each one that gave way behind the one it gave way to. -/
structure Resolution where
  active : List Feature
  suppressed : List (Feature × Feature)
  deriving Repr, DecidableEq

namespace Resolution

def isActive (r : Resolution) (feature : Feature) : Bool :=
  feature ∈ r.active

def suppress (winner : Feature) (r : Resolution) (loser : Feature) : Resolution :=
  if loser ∈ r.active then ⟨r.active.erase loser, r.suppressed ++ [(winner, loser)]⟩ else r

/-- Applies one rule. Whether it applies is settled before its first suppression. -/
def apply (r : Resolution) (rule : Rule) : Resolution :=
  if rule.winner ∈ r.active then rule.suppresses.foldl (suppress rule.winner) r else r

/-- The features without repetitions, each where it stands first. -/
def distinct (features : List Feature) : List Feature :=
  features.foldl (fun seen f => if f ∈ seen then seen else seen ++ [f]) []

/-- The outcome of a list of rules for the features that are asked for. -/
def resolve (rules : List Rule) (requested : List Feature) : Resolution :=
  rules.foldl apply ⟨distinct requested, []⟩

end Resolution

namespace ChartSpec

def requests (spec : ChartSpec) : Feature → Bool
  | .errorBar => spec.errorBar.isSome || spec.chartType = .errorBar
  | .facet => spec.facet.any fun f => !isBlankText f.field
  | .dualAxis => spec.encoding.y2.isSome
  | .colorGroup => spec.encoding.color.isSome
  | .horizontal => spec.isHorizontal

end ChartSpec

def Capabilities.supports (c : Capabilities) : Feature → Bool
  | .errorBar => c.errorBar
  | .facet => c.facet
  | .dualAxis => c.y2
  | .colorGroup => c.color
  | .horizontal => c.horizontal

namespace ChartSpec

def requestedFeatures (spec : ChartSpec) : List Feature :=
  Feature.all.filter fun f => spec.requests f && spec.chartType.capabilities.supports f

def resolution (spec : ChartSpec) : Resolution :=
  Resolution.resolve Rule.standard spec.requestedFeatures

end ChartSpec

end ChartCompiler
