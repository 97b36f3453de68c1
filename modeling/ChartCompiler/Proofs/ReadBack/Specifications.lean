import ChartCompiler.Proofs.ReadBack.Records
import ChartCompiler.Spec.Reader
import ChartCompiler.Spec.Writer

/-!
# Specifications read back

Every structure of a specification round-trips, down to the defaults that are written where nothing
was given. What comes back is the specification and not its first text, which may have had members
that nobody wants, another order or more digits.
-/

namespace ChartCompiler

open Json Reader Record

/-! ## Names -/

theorem SemanticType.roundTrips (depth : Nat) :
    SemanticType.reader.RoundTrips depth fun t => .string t.name :=
  roundTrips_choice (fun t => by cases t <;> rfl) none depth

theorem ChartType.roundTrips (depth : Nat) :
    ChartType.reader.RoundTrips depth fun t => .string t.name :=
  roundTrips_choice (fun t => by cases t <;> rfl) none depth

theorem Orientation.roundTrips (depth : Nat) :
    (Reader.named all name).RoundTrips depth fun o => .string o.name :=
  roundTrips_choice (fun o => by cases o <;> rfl) none depth

theorem ErrorBarKind.roundTrips (depth : Nat) :
    (Reader.named all name).RoundTrips depth fun k => .string k.name :=
  roundTrips_choice (fun k => by cases k <;> rfl) none depth

theorem AnnotationKind.roundTrips (depth : Nat) :
    (Reader.named all name).RoundTrips depth fun k => .string k.name :=
  roundTrips_choice (fun k => by cases k <;> rfl) none depth

/-- Names that are not known have become the standard preset, and are written as its name. -/
theorem Preset.restores (depth : Nat) (p : Preset) :
    Preset.reader.Restores depth (fun p => .string p.name) p :=
  restores_choice (fun p => by cases p <;> rfl) (some standard) depth p

theorem ExportFormat.restores (depth : Nat) (f : ExportFormat) :
    (Reader.named all name).Restores depth (fun f => .string f.name) f :=
  restores_choice (fun f => by cases f <;> rfl) none depth f

/-! ## Values of several forms -/

theorem Coord.roundTrips (depth : Nat) : Coord.reader.RoundTrips depth Coord.toJson := by
  refine roundTrips_oneOf (fun {v x} hv hx => ?_) "Coord"
  cases hv with
  | number hn =>
      cases hx
      exact ⟨.number hn.isFinite_toFloat, rfl⟩
  | string s =>
      cases hx
      exact ⟨.string s, rfl⟩
  | null | bool | array | object => exact nomatch hx

theorem Coord.refusesNull : Coord.reader.RefusesNull :=
  refusesNull_oneOf rfl "Coord"

/-- The lengths of a pattern are finite, since they have been read. -/
theorem Json.isFinite_of_mapM_float? {depth : Nat} {items : List Json}
    (hitems : ∀ v ∈ items, Canonical depth v) {lengths : List Float}
    (hlengths : items.mapM Json.float? = some lengths) : ∀ x ∈ lengths, x.isFinite = true := by
  induction items generalizing lengths with
  | nil =>
      cases hlengths
      exact nofun
  | cons v items ih =>
      obtain ⟨hv, hrest⟩ := List.forall_mem_cons.mp hitems
      rw [List.mapM_cons] at hlengths
      obtain ⟨x, hx, hlengths⟩ := Option.bind_eq_some_iff.mp hlengths
      obtain ⟨more, hmore, hlengths⟩ := Option.bind_eq_some_iff.mp hlengths
      cases hlengths
      refine List.forall_mem_cons.mpr ⟨?_, ih hrest hmore⟩
      cases hv with
      | number hn =>
          cases hx
          exact hn.isFinite_toFloat
      | null | bool | string | array | object => exact nomatch hx

theorem Json.mapM_float? (lengths : List Float) :
    (lengths.map Json.float).mapM Json.float? = some lengths := by
  induction lengths with
  | nil => rfl
  | cons x lengths ih =>
      rw [List.map_cons, List.mapM_cons, ih]
      rfl

theorem StrokeDash.roundTrips (depth : Nat) :
    StrokeDash.reader.RoundTrips depth StrokeDash.toJson := by
  refine roundTrips_oneOf (fun {v x} hv hx => ?_) "StrokeDash"
  cases hv with
  | number hn =>
      cases hx
      exact ⟨.number hn.isFinite_toFloat, rfl⟩
  | string s =>
      cases hx
      exact ⟨.string s, rfl⟩
  | array hitems =>
      obtain ⟨lengths, hlengths, rfl⟩ := Option.map_eq_some_iff.mp hx
      have hfinite := isFinite_of_mapM_float? hitems hlengths
      refine ⟨.array (List.forall_mem_map.mpr fun x hx => .number (hfinite x hx)), ?_⟩
      exact congrArg (Option.map StrokeDash.pattern) (mapM_float? lengths)
  | null | bool | object => exact nomatch hx

theorem StrokeDash.refusesNull : StrokeDash.reader.RefusesNull :=
  refusesNull_oneOf rfl "StrokeDash"

/-! ## Structures -/

theorem FieldDef.roundTrips (depth : Nat) :
    FieldDef.reader.RoundTrips (depth + 1) FieldDef.toJson :=
  Record.RoundTrips.reader
    ((((roundTrips_required (roundTrips_string depth) "field").map FieldDef.mk).seq
      (roundTrips_required (SemanticType.roundTrips depth) "type")).seq
      (roundTrips_optional (roundTrips_string depth) refusesNull_string "title"))
    (by decide) (fun _ => rfl) "FieldDef"

theorem Encoding.roundTrips (depth : Nat) :
    Encoding.reader.RoundTrips (depth + 2) Encoding.toJson :=
  Record.RoundTrips.reader
    (((((roundTrips_required (FieldDef.roundTrips depth) "x").map Encoding.mk).seq
      (roundTrips_required (FieldDef.roundTrips depth) "y")).seq
      (roundTrips_optional (FieldDef.roundTrips depth) (refusesNull_reader _ _) "y2")).seq
      (roundTrips_optional (FieldDef.roundTrips depth) (refusesNull_reader _ _) "color"))
    (by decide) (fun _ => rfl) "Encoding"

/-- There must be room for the brackets of the sample values, which are written if empty. -/
theorem Column.roundTrips (depth : Nat) :
    Column.reader.RoundTrips (depth + 2) Column.toJson :=
  Record.RoundTrips.reader
    ((((((roundTrips_required (roundTrips_string _) "name").map Column.mk).seq
      (roundTrips_required (SemanticType.roundTrips _) "semanticType")).seq
      (roundTrips_withDefault (roundTrips_natural (by decide) "usize" _) "uniqueCount"
        (restores_natural (by decide) (by decide) "usize" _))).seq
      (roundTrips_withDefault (roundTrips_values depth) "sampleValues"
        (restores_noValues depth))).seq
      (roundTrips_withDefault (roundTrips_bool _) "hasNull" (restores_bool _ false)))
    (by decide) (fun _ => rfl) "Column"

theorem Column.roundTrips_list (depth : Nat) :
    Column.listReader.RoundTrips (depth + 4) fun columns =>
      .object [("columns", .array (columns.map Column.toJson))] :=
  Record.RoundTrips.reader
    (roundTrips_withDefault (Column.roundTrips depth).list "columns"
      (restores_nil Column.reader _ Column.toJson))
    (by decide) (fun _ => rfl) "DataSpec"

theorem Font.roundTrips (depth : Nat) : Font.reader.RoundTrips (depth + 1) Font.toJson :=
  Record.RoundTrips.reader
    (((roundTrips_optional (roundTrips_string depth) refusesNull_string "family").map Font.mk).seq
      (roundTrips_optional (roundTrips_float depth) refusesNull_float "size"))
    (by decide) (fun _ => rfl) "Font"

theorem Style.roundTrips (depth : Nat) : Style.reader.RoundTrips (depth + 2) Style.toJson :=
  Record.RoundTrips.reader
    ((((((roundTrips_withDefault (fun _ _ _ _ => Preset.restores _ _) "preset"
        (Preset.restores _ .standard)).map Style.mk).seq
      (roundTrips_optional (roundTrips_string depth).list (refusesNull_list _) "colors")).seq
      (roundTrips_optional (roundTrips_string _) refusesNull_string "scheme")).seq
      (roundTrips_optional (Font.roundTrips depth) (refusesNull_reader _ _) "font")).seq
      (roundTrips_withDefault (roundTrips_bool _) "showDataLabels" (restores_bool _ false)))
    (by decide) (fun _ => rfl) "Style"

theorem ErrorBar.roundTrips (depth : Nat) :
    ErrorBar.reader.RoundTrips (depth + 1) ErrorBar.toJson :=
  Record.RoundTrips.reader
    (((roundTrips_required (ErrorBarKind.roundTrips depth) "type").map ErrorBar.mk).seq
      (roundTrips_optional (roundTrips_float depth) refusesNull_float "value"))
    (by decide) (fun _ => rfl) "ErrorBar"

theorem Facet.roundTrips (depth : Nat) : Facet.reader.RoundTrips (depth + 1) Facet.toJson :=
  Record.RoundTrips.reader
    (((((roundTrips_required (roundTrips_string depth) "field").map Facet.mk).seq
      (roundTrips_optional (roundTrips_natural (by decide) "usize" depth)
        (refusesNull_natural _ _) "ncol")).seq
      (roundTrips_withDefault (roundTrips_bool depth) "showTitle" (restores_bool depth true))).seq
      (roundTrips_withDefault (roundTrips_bool depth) "shareAxis" (restores_bool depth false)))
    (by decide) (fun _ => rfl) "Facet"

theorem Trendline.roundTrips (depth : Nat) :
    Trendline.reader.RoundTrips (depth + 1) Trendline.toJson :=
  Record.RoundTrips.reader
    (roundTrips_required (roundTrips_choice (fun t => by cases t; rfl) none depth) "type")
    (by decide) (fun _ => rfl) "Trendline"

theorem Annotation.roundTrips (depth : Nat) :
    Annotation.reader.RoundTrips (depth + 1) Annotation.toJson :=
  have coord (name : String) :=
    roundTrips_optional (Coord.roundTrips depth) Coord.refusesNull name
  have string (name : String) :=
    roundTrips_optional (roundTrips_string depth) refusesNull_string name
  Record.RoundTrips.reader
    (((((((((roundTrips_required (AnnotationKind.roundTrips depth) "type").map Annotation.mk).seq
      (coord "x")).seq (coord "y")).seq (coord "x2")).seq (coord "y2")).seq
      (string "text")).seq (string "color")).seq
      (roundTrips_optional (StrokeDash.roundTrips depth) StrokeDash.refusesNull "strokeDash"))
    (by decide) (fun _ => rfl) "Annotation"

theorem ExportConfig.roundTrips (depth : Nat) :
    ExportConfig.reader.RoundTrips (depth + 1) ExportConfig.toJson :=
  have size (name : String) (default : Nat) (hdefault : default < Nat.pow 2 32) :=
    roundTrips_withDefault (roundTrips_natural (by decide) "u32" depth) name
      (restores_natural (by decide) hdefault "u32" depth)
  Record.RoundTrips.reader
    (((((roundTrips_withDefault (fun _ _ _ _ => ExportFormat.restores depth _) "format"
        (ExportFormat.restores depth .png)).map ExportConfig.mk).seq
      (size "width" 800 (by decide))).seq (size "height" 600 (by decide))).seq
      (size "dpi" 300 (by decide)))
    (by decide) (fun _ => rfl) "ExportConfig"

namespace ChartSpec

/-- The defaults are what an empty object is read as. -/
theorem roundTrips (depth : Nat) : ChartSpec.reader.RoundTrips (depth + 5) toJson :=
  have columns := Column.roundTrips_list depth
  have style := Style.roundTrips (depth + 2)
  have annotations := Annotation.roundTrips (depth + 2)
  have exporting := ExportConfig.roundTrips (depth + 3)
  Record.RoundTrips.reader
    (((((((((((roundTrips_required (ChartType.roundTrips _) "chartType").map ChartSpec.mk).seq
      (roundTrips_withDefault columns "data" (columns ['\x7b', '\x7d'] [] [] rfl))).seq
      (roundTrips_required (Encoding.roundTrips (depth + 2)) "encoding")).seq
      (roundTrips_withDefault style "style" (style ['\x7b', '\x7d'] .plain [] rfl))).seq
      (roundTrips_optional (Orientation.roundTrips _) (refusesNull_choice _ _) "orientation")).seq
      (roundTrips_optional (ErrorBar.roundTrips _) (refusesNull_reader _ _) "errorBar")).seq
      (roundTrips_optional (Facet.roundTrips _) (refusesNull_reader _ _) "facet")).seq
      (roundTrips_optional (Trendline.roundTrips _) (refusesNull_reader _ _) "trendline")).seq
      (roundTrips_withDefault annotations.list "annotations"
        (restores_nil Annotation.reader _ Annotation.toJson))).seq
      (roundTrips_withDefault exporting "exportConfig"
        (exporting ['\x7b', '\x7d'] .usual [] rfl)))
    (by decide) (fun _ => rfl) "ChartSpec"

/-- A specification that has been read is read back from the text written for it. Integers and
strings need no assumption; of the doubles that the specification holds it is assumed that their
texts are read as these doubles. -/
theorem ofText?_compact {text : List Char} {spec : ChartSpec} (hread : ofText? text = .ok spec)
    (hdoubles : spec.toJson.DoublesReadBack) : ofText? spec.toJson.compact = .ok spec := by
  obtain ⟨⟨read, behind⟩, hreader, hread⟩ := bind_eq_ok.mp hread
  dsimp only at hread
  split at hread
  · cases hread
    have hback := roundTrips 122 text spec behind hreader hdoubles [] closes_nil
    rw [List.append_nil] at hback
    exact bind_eq_ok.mpr ⟨_, hback, rfl⟩
  · exact nomatch hread

/-- A specification as few would write it: lists in place of records, an unknown preset, and whole
numbers in place of doubles. -/
def sketch : Json :=
  .object [
    ("annotations", .array [.object [
      ("x", .nat 40),
      ("y", .string "25%"),
      ("strokeDash", .array [.nat 4, .float 2.5]),
      ("type", .string "line")]]),
    ("style", .object [("font", .array [.null, .nat 10]), ("preset", .string "plain")]),
    ("chartType", .string "bar"),
    ("comment", .bool true),
    ("encoding", .object [
      ("x", .array [.string "region", .string "nominal"]),
      ("y", .array [.string "sales", .string "quantitative", .null])])]

theorem ofText?_compact_sketch : ∃ spec, ofText? sketch.compact = .ok spec ∧
    spec.toJson.doubles = [10, 40, 4, 2.5] ∧ ofText? spec.toJson.compact = .ok spec := by
  have hevaluated : (match ofText? sketch.compact with
      | .ok spec => decide (spec.toJson.doubles = [10, 40, 4, 2.5] ∧ spec.toJson.DoublesReadBack)
      | .error _ => false) = true := by
    decide +kernel
  split at hevaluated
  · next spec hread =>
      obtain ⟨hdoubles, hback⟩ := of_decide_eq_true hevaluated
      exact ⟨spec, hread, hdoubles, ofText?_compact hread hback⟩
  · exact nomatch hevaluated

end ChartSpec

end ChartCompiler
