import ChartCompiler.Json.Record
import ChartCompiler.Spec.Basic

/-!
# Reading specifications

One record per structure, with its fields in order. `ChartSpec.ofText?` reads a whole text.
-/

namespace ChartCompiler

open Json (Reader Record Fault)

/-- Reads one of the values of a closed type by its name. -/
def Json.Reader.named {α : Type} (all : List α) (name : α → String) : Reader α :=
  Reader.choice (all.map fun x => (name x, x)) none

def ChartType.reader : Reader ChartType :=
  Reader.named all name

def SemanticType.reader : Reader SemanticType :=
  Reader.named all name

/-- Reads the name of a preset. Names that are not known stand for the standard preset. -/
def Preset.reader : Reader Preset :=
  Reader.choice (all.map fun p => (p.name, p)) (some standard)

namespace Column

def reader : Reader Column :=
  Record.reader "Column" <|
    Column.mk
      <$> Record.required "name" Reader.string
      <*> Record.required "semanticType" SemanticType.reader
      <*> Record.withDefault "uniqueCount" Reader.natural64 0
      <*> Record.withDefault "sampleValues" (Reader.list Json.value) []
      <*> Record.withDefault "hasNull" Reader.bool false

/-- Reads the list of columns, the only field of a data description. -/
def listReader : Reader (List Column) :=
  Record.reader "DataSpec" (Record.withDefault "columns" (Reader.list reader) [])

end Column

def FieldDef.reader : Reader FieldDef :=
  Record.reader "FieldDef" <|
    FieldDef.mk
      <$> Record.required "field" Reader.string
      <*> Record.required "type" SemanticType.reader
      <*> Record.optional "title" Reader.string

def Encoding.reader : Reader Encoding :=
  Record.reader "Encoding" <|
    Encoding.mk
      <$> Record.required "x" FieldDef.reader
      <*> Record.required "y" FieldDef.reader
      <*> Record.optional "y2" FieldDef.reader
      <*> Record.optional "color" FieldDef.reader

def Font.reader : Reader Font :=
  Record.reader "Font" <|
    Font.mk
      <$> Record.optional "family" Reader.string
      <*> Record.optional "size" Reader.float

def Style.reader : Reader Style :=
  Record.reader "Style" <|
    Style.mk
      <$> Record.withDefault "preset" Preset.reader .standard
      <*> Record.optional "colors" (Reader.list Reader.string)
      <*> Record.optional "scheme" Reader.string
      <*> Record.optional "font" Font.reader
      <*> Record.withDefault "showDataLabels" Reader.bool false

def ErrorBar.reader : Reader ErrorBar :=
  Record.reader "ErrorBar" <|
    ErrorBar.mk
      <$> Record.required "type" (Reader.named ErrorBarKind.all ErrorBarKind.name)
      <*> Record.optional "value" Reader.float

def Facet.reader : Reader Facet :=
  Record.reader "Facet" <|
    Facet.mk
      <$> Record.required "field" Reader.string
      <*> Record.optional "ncol" Reader.natural64
      <*> Record.withDefault "showTitle" Reader.bool true
      <*> Record.withDefault "shareAxis" Reader.bool false

/-- Reads a trendline, a record with its kind alone. -/
def Trendline.reader : Reader Trendline :=
  Record.reader "Trendline" (Record.required "type" (Reader.named all name))

/-- A number is a count of pixels, a string an expression. -/
def Coord.ofJson? : Json → Option Coord
  | .number n => some (.pixels n.toFloat)
  | .string s => some (.expression s)
  | _ => none

def Coord.reader : Reader Coord :=
  Reader.oneOf "Coord" ofJson?

def Json.float? : Json → Option Float
  | .number n => some n.toFloat
  | _ => none

/-- A number is a width, a list of numbers a pattern, a string the text of either. -/
def StrokeDash.ofJson? : Json → Option StrokeDash
  | .number n => some (.width n.toFloat)
  | .array items => (items.mapM Json.float?).map .pattern
  | .string s => some (.named s)
  | _ => none

def StrokeDash.reader : Reader StrokeDash :=
  Reader.oneOf "StrokeDash" ofJson?

def Annotation.reader : Reader Annotation :=
  Record.reader "Annotation" <|
    Annotation.mk
      <$> Record.required "type" (Reader.named AnnotationKind.all AnnotationKind.name)
      <*> Record.optional "x" Coord.reader
      <*> Record.optional "y" Coord.reader
      <*> Record.optional "x2" Coord.reader
      <*> Record.optional "y2" Coord.reader
      <*> Record.optional "text" Reader.string
      <*> Record.optional "color" Reader.string
      <*> Record.optional "strokeDash" StrokeDash.reader

def ExportConfig.reader : Reader ExportConfig :=
  Record.reader "ExportConfig" <|
    ExportConfig.mk
      <$> Record.withDefault "format" (Reader.named ExportFormat.all ExportFormat.name) .png
      <*> Record.withDefault "width" Reader.natural32 800
      <*> Record.withDefault "height" Reader.natural32 600
      <*> Record.withDefault "dpi" Reader.natural32 300

namespace ChartSpec

def reader : Reader ChartSpec :=
  Record.reader "ChartSpec" <|
    ChartSpec.mk
      <$> Record.required "chartType" ChartType.reader
      <*> Record.withDefault "data" Column.listReader []
      <*> Record.required "encoding" Encoding.reader
      <*> Record.withDefault "style" Style.reader .plain
      <*> Record.optional "orientation" (Reader.named Orientation.all Orientation.name)
      <*> Record.optional "errorBar" ErrorBar.reader
      <*> Record.optional "facet" Facet.reader
      <*> Record.optional "trendline" Trendline.reader
      <*> Record.withDefault "annotations" (Reader.list Annotation.reader) []
      <*> Record.withDefault "exportConfig" ExportConfig.reader .usual

def ofText? (text : List Char) : Except Fault ChartSpec :=
  reader.readText text

end ChartSpec

end ChartCompiler
