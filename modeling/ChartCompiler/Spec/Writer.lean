import ChartCompiler.Spec.Basic

/-!
# Specifications as JSON

Every field is written, in the order of its structure, and `null` where nothing is given.
-/

namespace ChartCompiler

namespace Json

def orNull {α : Type} (write : α → Json) : Option α → Json
  | some x => write x
  | none => null

def nat (n : Nat) : Json :=
  number (.integer n)

def float (x : Float) : Json :=
  number (.real x)

def strings (items : List String) : Json :=
  array (items.map string)

end Json

def Column.toJson (c : Column) : Json :=
  .object [
    ("name", .string c.name),
    ("semanticType", .string c.semanticType.name),
    ("uniqueCount", .nat c.uniqueCount),
    ("sampleValues", .array c.sampleValues),
    ("hasNull", .bool c.hasNull)]

def FieldDef.toJson (f : FieldDef) : Json :=
  .object [
    ("field", .string f.field),
    ("type", .string f.type.name),
    ("title", .orNull .string f.title)]

def Encoding.toJson (e : Encoding) : Json :=
  .object [
    ("x", e.x.toJson),
    ("y", e.y.toJson),
    ("y2", .orNull FieldDef.toJson e.y2),
    ("color", .orNull FieldDef.toJson e.color)]

def Font.toJson (f : Font) : Json :=
  .object [("family", .orNull .string f.family), ("size", .orNull .float f.size)]

def Style.toJson (s : Style) : Json :=
  .object [
    ("preset", .string s.preset.name),
    ("colors", .orNull .strings s.colors),
    ("scheme", .orNull .string s.scheme),
    ("font", .orNull Font.toJson s.font),
    ("showDataLabels", .bool s.showDataLabels)]

def ErrorBar.toJson (e : ErrorBar) : Json :=
  .object [("type", .string e.kind.name), ("value", .orNull .float e.value)]

def Facet.toJson (f : Facet) : Json :=
  .object [
    ("field", .string f.field),
    ("ncol", .orNull .nat f.columnCount),
    ("showTitle", .bool f.showTitle),
    ("shareAxis", .bool f.shareAxis)]

def Trendline.toJson (t : Trendline) : Json :=
  .object [("type", .string t.name)]

def Coord.toJson : Coord → Json
  | .pixels x => .float x
  | .expression s => .string s

def StrokeDash.toJson : StrokeDash → Json
  | .width x => .float x
  | .pattern lengths => .array (lengths.map .float)
  | .named s => .string s

def Annotation.toJson (a : Annotation) : Json :=
  .object [
    ("type", .string a.kind.name),
    ("x", .orNull Coord.toJson a.x),
    ("y", .orNull Coord.toJson a.y),
    ("x2", .orNull Coord.toJson a.x2),
    ("y2", .orNull Coord.toJson a.y2),
    ("text", .orNull .string a.text),
    ("color", .orNull .string a.color),
    ("strokeDash", .orNull StrokeDash.toJson a.strokeDash)]

def ExportConfig.toJson (e : ExportConfig) : Json :=
  .object [
    ("format", .string e.format.name),
    ("width", .nat e.width),
    ("height", .nat e.height),
    ("dpi", .nat e.dpi)]

def ChartSpec.toJson (spec : ChartSpec) : Json :=
  .object [
    ("chartType", .string spec.chartType.name),
    ("data", .object [("columns", .array (spec.columns.map Column.toJson))]),
    ("encoding", spec.encoding.toJson),
    ("style", spec.style.toJson),
    ("orientation", .orNull (fun o => .string o.name) spec.orientation),
    ("errorBar", .orNull ErrorBar.toJson spec.errorBar),
    ("facet", .orNull Facet.toJson spec.facet),
    ("trendline", .orNull Trendline.toJson spec.trendline),
    ("annotations", .array (spec.annotations.map Annotation.toJson)),
    ("exportConfig", spec.exportConfig.toJson)]

end ChartCompiler
