import ChartCompiler.Json.Basic

/-!
# Chart specifications

A specification says which columns a data set has, what kind of chart to draw, which fields drive
its channels, and which extras to add. It holds no rows.
-/

namespace ChartCompiler

inductive ChartType where
  | bar
  | groupedBar
  | stackedBar
  | line
  | area
  | scatter
  | histogram
  | boxplot
  | violin
  | errorBar
  deriving Repr, DecidableEq

namespace ChartType

def all : List ChartType :=
  [bar, groupedBar, stackedBar, line, area, scatter, histogram, boxplot, violin, errorBar]

def name : ChartType → String
  | bar => "bar"
  | groupedBar => "grouped-bar"
  | stackedBar => "stacked-bar"
  | line => "line"
  | area => "area"
  | scatter => "scatter"
  | histogram => "histogram"
  | boxplot => "boxplot"
  | violin => "violin"
  | errorBar => "error-bar"

/-- Charts of bars that stand on zero. -/
def isBar : ChartType → Bool
  | bar | groupedBar | stackedBar | histogram => true
  | _ => false

end ChartType

inductive SemanticType where
  | nominal
  | ordinal
  | quantitative
  | temporal
  deriving Repr, DecidableEq

namespace SemanticType

def all : List SemanticType :=
  [nominal, ordinal, quantitative, temporal]

def name : SemanticType → String
  | nominal => "nominal"
  | ordinal => "ordinal"
  | quantitative => "quantitative"
  | temporal => "temporal"

def isCategorical : SemanticType → Bool
  | nominal | ordinal => true
  | _ => false

end SemanticType

structure Column where
  name : String
  semanticType : SemanticType
  uniqueCount : Nat
  sampleValues : List Json
  hasNull : Bool

structure FieldDef where
  field : String
  type : SemanticType
  title : Option String
  deriving Repr, DecidableEq

/-- The name on an axis or in a legend: the title, or else the field. -/
def FieldDef.displayName (f : FieldDef) : String :=
  f.title.getD f.field

structure Encoding where
  x : FieldDef
  y : FieldDef
  y2 : Option FieldDef
  color : Option FieldDef
  deriving Repr, DecidableEq

inductive Preset where
  | nature
  | science
  | apa
  | grayscale
  | standard
  deriving Repr, DecidableEq

namespace Preset

def all : List Preset :=
  [nature, science, apa, grayscale, standard]

def name : Preset → String
  | nature => "nature"
  | science => "science"
  | apa => "apa"
  | grayscale => "grayscale"
  | standard => "default"

end Preset

structure Font where
  family : Option String
  size : Option Float

structure Style where
  preset : Preset
  colors : Option (List String)
  scheme : Option String
  font : Option Font
  showDataLabels : Bool

/-- The style of a specification that says nothing of style. -/
def Style.plain : Style where
  preset := .standard
  colors := none
  scheme := none
  font := none
  showDataLabels := false

inductive Orientation where
  | vertical
  | horizontal
  deriving Repr, DecidableEq

namespace Orientation

def all : List Orientation :=
  [vertical, horizontal]

def name : Orientation → String
  | vertical => "vertical"
  | horizontal => "horizontal"

end Orientation

inductive ErrorBarKind where
  | standardError
  | standardDeviation
  | confidence
  | quartiles
  deriving Repr, DecidableEq

namespace ErrorBarKind

def all : List ErrorBarKind :=
  [standardError, standardDeviation, confidence, quartiles]

def name : ErrorBarKind → String
  | standardError => "stderr"
  | standardDeviation => "stdev"
  | confidence => "ci"
  | quartiles => "iqr"

end ErrorBarKind

/-- A wish for error bars. The value is a confidence level in percent. -/
structure ErrorBar where
  kind : ErrorBarKind
  value : Option Float

def ErrorBar.confidenceLevel (e : ErrorBar) : Float :=
  e.value.getD 95.0

/-- A wish for one small chart per value of a field. -/
structure Facet where
  field : String
  columnCount : Option Nat
  showTitle : Bool
  shareAxis : Bool
  deriving Repr, DecidableEq

inductive Trendline where
  | linear
  deriving Repr, DecidableEq

namespace Trendline

def all : List Trendline :=
  [linear]

def name : Trendline → String
  | linear => "linear"

end Trendline

inductive AnnotationKind where
  | text
  | line
  | rect
  deriving Repr, DecidableEq

namespace AnnotationKind

def all : List AnnotationKind :=
  [text, line, rect]

def name : AnnotationKind → String
  | text => "text"
  | line => "line"
  | rect => "rect"

end AnnotationKind

/-- A coordinate as it is written: pixels, or an expression such as `25%` or `center`. -/
inductive Coord where
  | pixels (value : Float)
  | expression (text : String)

/-- A dash style as it is written: the length of dash and gap, a list of lengths, or a text. -/
inductive StrokeDash where
  | width (value : Float)
  | pattern (lengths : List Float)
  | named (text : String)

structure Annotation where
  kind : AnnotationKind
  x : Option Coord
  y : Option Coord
  x2 : Option Coord
  y2 : Option Coord
  text : Option String
  color : Option String
  strokeDash : Option StrokeDash

inductive ExportFormat where
  | png
  | svg
  deriving Repr, DecidableEq

namespace ExportFormat

def all : List ExportFormat :=
  [png, svg]

def name : ExportFormat → String
  | png => "png"
  | svg => "svg"

end ExportFormat

/-- Settings for export, which the compiler carries but does not use. -/
structure ExportConfig where
  format : ExportFormat
  width : Nat
  height : Nat
  dpi : Nat
  deriving Repr, DecidableEq

/-- The export settings of a specification that gives none. -/
def ExportConfig.usual : ExportConfig where
  format := .png
  width := 800
  height := 600
  dpi := 300

structure ChartSpec where
  chartType : ChartType
  columns : List Column
  encoding : Encoding
  style : Style
  orientation : Option Orientation
  errorBar : Option ErrorBar
  facet : Option Facet
  trendline : Option Trendline
  annotations : List Annotation
  exportConfig : ExportConfig

namespace ChartSpec

def isHorizontal (spec : ChartSpec) : Bool :=
  spec.orientation = some .horizontal

def column? (spec : ChartSpec) (name : String) : Option Column :=
  spec.columns.find? (·.name = name)

end ChartSpec

end ChartCompiler
