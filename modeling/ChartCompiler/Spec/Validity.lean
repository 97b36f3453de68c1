import ChartCompiler.Decimal.Layout
import ChartCompiler.Expression.HexColor
import ChartCompiler.Expression.Position

/-!
# Valid specifications

`ChartSpec.violations` lists all that is wrong with a specification, part by part: the channels, the
facet, the error bar, the colours and the annotations. Features that exclude each other are not
wrong; the compiler settles which one wins.
-/

namespace ChartCompiler

inductive Channel where
  | x
  | y
  | y2
  | color
  | facet
  deriving Repr, DecidableEq

def Channel.name : Channel → String
  | x => "encoding.x"
  | y => "encoding.y"
  | y2 => "encoding.y2"
  | color => "encoding.color"
  | facet => "facet"

/-- The coordinates of an annotation. -/
inductive Corner where
  | x
  | y
  | x2
  | y2
  deriving Repr, DecidableEq

namespace Corner

def all : List Corner :=
  [x, y, x2, y2]

theorem mem_all (corner : Corner) : corner ∈ all := by
  cases corner <;> decide

def name : Corner → String
  | x => "x"
  | y => "y"
  | x2 => "x2"
  | y2 => "y2"

end Corner

def Annotation.coord? (a : Annotation) : Corner → Option Coord
  | .x => a.x
  | .y => a.y
  | .x2 => a.x2
  | .y2 => a.y2

inductive Violation where
  | emptyField (channel : Channel)
  | unknownField (channel : Channel) (field : String)
  | sameField (field : String)
  | y2NotQuantitative (found : SemanticType)
  | facetNotCategorical (field : String) (found : SemanticType)
  | facetColumnsOutOfRange (count : Nat)
  | confidenceOutOfRange (value : Float)
  | invalidColor (index : Nat) (value : String)
  | invalidCoordinate (index : Nat) (corner : Corner) (text : String)
  | mixedUnits (index : Nat)
  | keywordInRect (index : Nat) (corner : Corner)
  | invalidAnnotationColor (index : Nat) (value : String)

/-- Numbers in violations are written without exponent, and whole ones without a point. The last
digit is the greater one where two would do. -/
def Violation.numberLayout : Decimal.Layout where
  tie := .up
  plain := none
  pointZero := false
  nan := "NaN"
  infinite := "inf"
  negativeInfinite := "-inf"

def Coord.text : Coord → String
  | .pixels x => Violation.numberLayout.write x
  | .expression s => s

namespace Violation

def annotationName (index : Nat) : String :=
  "annotations[" ++ toString index ++ "]"

def message : Violation → String
  | emptyField channel => channel.name ++ ".field must not be empty"
  | unknownField channel field =>
      channel.name ++ ".field '" ++ field ++ "' does not reference a column"
  | sameField field => "encoding.x and encoding.y both reference '" ++ field ++ "'"
  | y2NotQuantitative found => "encoding.y2 must be quantitative, found " ++ found.name
  | facetNotCategorical field found =>
      "facet.field '" ++ field ++ "' must be a nominal or ordinal column, found " ++ found.name
  | facetColumnsOutOfRange count =>
      "facet.ncol must be between 1 and 6, found " ++ toString count
  | confidenceOutOfRange value =>
      "errorBar.value must be a confidence level in (0, 100), found " ++ numberLayout.write value
  | invalidColor index value =>
      "style.colors[" ++ toString index ++ "] '" ++ value ++ "' is not a valid colour"
  | invalidCoordinate index corner text =>
      annotationName index ++ "." ++ corner.name ++ " '" ++ text ++
        "' is not a pixel offset, percentage or alignment keyword"
  | mixedUnits index =>
      annotationName index ++ " (rect) mixes pixel and percentage coordinates"
  | keywordInRect index corner =>
      annotationName index ++ " (rect) coordinate '" ++ corner.name ++
        "' must be numeric or a percentage"
  | invalidAnnotationColor index value =>
      annotationName index ++ ".color '" ++ value ++ "' is not a valid colour"

/-- The violations as one error. The command gives each a line of its own instead. -/
def summary (violations : List Violation) : String :=
  "invalid chart specification (" ++ toString violations.length ++ " violation(s)): " ++
    "; ".intercalate (violations.map message)

/-- One violation, if a condition holds. -/
def when (condition : Bool) (violation : Violation) : List Violation :=
  if condition then [violation] else []

end Violation

open Violation (when)

/-- A channel has to name a column. -/
def FieldDef.violations (columns : List Column) (channel : Channel) (f : FieldDef) :
    List Violation :=
  if isBlankText f.field then [.emptyField channel]
  else when (columns.all (·.name ≠ f.field)) (.unknownField channel f.field)

/-- The first two channels have to name different fields. -/
def Encoding.sameFieldViolations (e : Encoding) : List Violation :=
  when (e.x.field ≠ "" && e.x.field = e.y.field) (.sameField e.x.field)

/-- The secondary channel has to name a column and be quantitative. -/
def FieldDef.y2Violations (columns : List Column) (f : FieldDef) : List Violation :=
  f.violations columns .y2 ++ when (f.type ≠ .quantitative) (.y2NotQuantitative f.type)

/-- A facet has to name a column of categories. -/
def Facet.fieldViolations (columns : List Column) (f : Facet) : List Violation :=
  if isBlankText f.field then [.emptyField .facet]
  else
    match columns.find? (·.name = f.field) with
    | none => [.unknownField .facet f.field]
    | some column =>
        when (!column.semanticType.isCategorical)
          (.facetNotCategorical f.field column.semanticType)

/-- A facet has one to six columns of plots, if it says how many. -/
def Facet.columnViolations (f : Facet) : List Violation :=
  match f.columnCount with
  | none => []
  | some count => when (count < 1 || 6 < count) (.facetColumnsOutOfRange count)

/-- A confidence level lies between 0 and 100. Other error bars do not read the value. -/
def ErrorBar.violations (e : ErrorBar) : List Violation :=
  match e.kind, e.value with
  | .confidence, some value => when (!(0 < value && value < 100)) (.confidenceOutOfRange value)
  | _, _ => []

/-- The colours of a style have to be colours. -/
def Style.violations (s : Style) : List Violation :=
  (s.colors.getD []).zipIdx.flatMap fun (value, index) =>
    when (!isColorText value) (.invalidColor index value)

namespace Annotation

def coordViolations (index : Nat) (a : Annotation) (corner : Corner) : List Violation :=
  match a.coord? corner with
  | none => []
  | some coord => when coord.position?.isNone (.invalidCoordinate index corner coord.text)

def position? (a : Annotation) (corner : Corner) : Option Position :=
  (a.coord? corner).bind Coord.position?

def isPixels : Option Position → Bool
  | some (.pixels _) => true
  | _ => false

def isPercent : Option Position → Bool
  | some (.percent _) => true
  | _ => false

def isKeyword : Option Position → Bool
  | some (.keyword _) => true
  | _ => false

/-- A rectangle has no keywords for coordinates, and one unit for all of them. -/
def rectViolations (index : Nat) (a : Annotation) : List Violation :=
  match a.kind with
  | .rect =>
      (Corner.all.flatMap fun corner =>
        when (isKeyword (a.position? corner)) (.keywordInRect index corner)) ++
      when (Corner.all.any (fun c => isPixels (a.position? c)) &&
          Corner.all.any (fun c => isPercent (a.position? c)))
        (.mixedUnits index)
  | _ => []

def colorViolations (index : Nat) (a : Annotation) : List Violation :=
  match a.color with
  | none => []
  | some color => when (!isColorText color) (.invalidAnnotationColor index color)

/-- All that is wrong with the annotation of the given index. -/
def violations (index : Nat) (a : Annotation) : List Violation :=
  Corner.all.flatMap (a.coordViolations index) ++ a.rectViolations index ++
    a.colorViolations index

end Annotation

namespace ChartSpec

/-- All that is wrong with a specification, in the order of its parts. -/
def violations (spec : ChartSpec) : List Violation :=
  let columns := spec.columns
  spec.encoding.x.violations columns .x ++
    spec.encoding.y.violations columns .y ++
    spec.encoding.sameFieldViolations ++
    (spec.encoding.y2.map (·.y2Violations columns)).getD [] ++
    (spec.encoding.color.map (·.violations columns .color)).getD [] ++
    (spec.facet.map (·.fieldViolations columns)).getD [] ++
    (spec.facet.map (·.columnViolations)).getD [] ++
    (spec.errorBar.map (·.violations)).getD [] ++
    spec.style.violations ++
    spec.annotations.zipIdx.flatMap fun (a, index) => a.violations index

end ChartSpec

end ChartCompiler
