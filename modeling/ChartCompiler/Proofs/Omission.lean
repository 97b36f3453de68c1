import ChartCompiler.Compile
import ChartCompiler.Proofs.Precedence

/-!
# Specifications with parts left out

Every optional feature is asked for by one part of a specification. `without`
leaves such parts out. That never makes a valid specification invalid, and it
takes exactly the left out features from the request. A chart of error bars is
the exception: there the chart type itself asks.
-/

namespace ChartCompiler

/-- No violation comes from a condition that does not hold. -/
theorem Violation.when_eq_nil_iff (condition : Bool) (violation : Violation) :
    Violation.when condition violation = [] ↔ condition = false := by
  cases condition <;> simp [Violation.when]

/-- A channel is in order if it names a column and is not blank. Which channel
it is matters only for the wording. -/
theorem FieldDef.violations_eq_nil_iff (columns : List Column)
    (channel : Channel) (f : FieldDef) :
    f.violations columns channel = [] ↔
      isBlankText f.field = false ∧ ∃ column ∈ columns, column.name = f.field := by
  unfold FieldDef.violations
  cases isBlankText f.field with
  | true => simp
  | false => simp [Violation.when_eq_nil_iff]

/-- A part that has no violations has none when it may be left out. -/
theorem Violation.ite_none_eq_nil {α : Type} {part : Option α}
    {check : α → List Violation} {p : Prop} [Decidable p]
    (hpart : (part.map check).getD [] = []) :
    ((if p then none else part).map check).getD [] = [] := by
  split
  · rfl
  · exact hpart

open Violation (ite_none_eq_nil)

namespace ChartSpec

/-- Nothing is wrong with any part of a specification. -/
structure IsValid (spec : ChartSpec) : Prop where
  x : spec.encoding.x.violations spec.columns .x = []
  y : spec.encoding.y.violations spec.columns .y = []
  sameField : spec.encoding.sameFieldViolations = []
  y2 : (spec.encoding.y2.map (·.y2Violations spec.columns)).getD [] = []
  color : (spec.encoding.color.map (·.violations spec.columns .color)).getD [] = []
  facetField : (spec.facet.map (·.fieldViolations spec.columns)).getD [] = []
  facetColumns : (spec.facet.map (·.columnViolations)).getD [] = []
  errorBar : (spec.errorBar.map (·.violations)).getD [] = []
  style : spec.style.violations = []
  annotations :
    (spec.annotations.zipIdx.flatMap fun (a, index) => a.violations index) = []

theorem violations_eq_nil_iff (spec : ChartSpec) : spec.violations = [] ↔ spec.IsValid := by
  simp only [violations, List.append_eq_nil_iff]
  constructor
  · rintro ⟨⟨⟨⟨⟨⟨⟨⟨⟨hx, hy⟩, hsame⟩, hy2⟩, hcolor⟩, hfield⟩, hcolumns⟩, herror⟩,
      hstyle⟩, hannotations⟩
    exact ⟨hx, hy, hsame, hy2, hcolor, hfield, hcolumns, herror, hstyle, hannotations⟩
  · intro h
    exact ⟨⟨⟨⟨⟨⟨⟨⟨⟨h.x, h.y⟩, h.sameField⟩, h.y2⟩, h.color⟩, h.facetField⟩,
      h.facetColumns⟩, h.errorBar⟩, h.style⟩, h.annotations⟩

/-- The specification without the parts that ask for the given features. -/
def without (spec : ChartSpec) (features : List Feature) : ChartSpec :=
  { spec with
    encoding := { spec.encoding with
      y2 := if .dualAxis ∈ features then none else spec.encoding.y2
      color := if .colorGroup ∈ features then none else spec.encoding.color }
    orientation := if .horizontal ∈ features then none else spec.orientation
    errorBar := if .errorBar ∈ features then none else spec.errorBar
    facet := if .facet ∈ features then none else spec.facet }

/-- Every part is checked on its own, so leaving some out adds no violation. -/
theorem violations_without {spec : ChartSpec} (features : List Feature)
    (hvalid : spec.violations = []) : (spec.without features).violations = [] := by
  rw [violations_eq_nil_iff] at hvalid ⊢
  exact { hvalid with
    y2 := ite_none_eq_nil hvalid.y2
    color := ite_none_eq_nil hvalid.color
    facetField := ite_none_eq_nil hvalid.facetField
    facetColumns := ite_none_eq_nil hvalid.facetColumns
    errorBar := ite_none_eq_nil hvalid.errorBar }

theorem requests_without (spec : ChartSpec) (features : List Feature)
    (hchart : spec.chartType = .errorBar → .errorBar ∉ features) (f : Feature) :
    (spec.without features).requests f =
      (spec.requests f && decide (f ∉ features)) := by
  cases f with
  | errorBar =>
      by_cases hleft : .errorBar ∈ features
      · have hother : spec.chartType ≠ .errorBar := fun heq => hchart heq hleft
        simp [requests, without, hleft, hother]
      · simp [requests, without, hleft]
  | facet =>
      by_cases hleft : .facet ∈ features <;> simp [requests, without, hleft]
  | dualAxis =>
      by_cases hleft : .dualAxis ∈ features <;> simp [requests, without, hleft]
  | colorGroup =>
      by_cases hleft : .colorGroup ∈ features <;> simp [requests, without, hleft]
  | horizontal =>
      by_cases hleft : .horizontal ∈ features <;>
        simp [requests, without, isHorizontal, hleft]

theorem asks_without (spec : ChartSpec) (features : List Feature)
    (hchart : spec.chartType = .errorBar → .errorBar ∉ features) (f : Feature) :
    (spec.without features).asks f = (spec.asks f && decide (f ∉ features)) := by
  unfold asks
  rw [requests_without spec features hchart]
  exact Bool.and_right_comm _ _ _

theorem requestedFeatures_without (spec : ChartSpec) (features : List Feature)
    (hchart : spec.chartType = .errorBar → .errorBar ∉ features) :
    (spec.without features).requestedFeatures =
      spec.requestedFeatures.filter (· ∉ features) := by
  have hasks : (spec.without features).asks =
      fun f => spec.asks f && decide (f ∉ features) :=
    funext (asks_without spec features hchart)
  change Feature.all.filter (spec.without features).asks =
    (Feature.all.filter spec.asks).filter (· ∉ features)
  rw [hasks, List.filter_filter]
  congr 1
  funext f
  exact Bool.and_comm _ _

/-- A bar chart that asks for every feature at once. -/
def crowded : ChartSpec where
  chartType := .bar
  columns := [
    ⟨"region", .nominal, 2, [], false⟩,
    ⟨"quarter", .ordinal, 2, [], true⟩,
    ⟨"sales", .quantitative, 3, [], true⟩,
    ⟨"profit", .quantitative, 3, [], false⟩]
  encoding := {
    x := ⟨"region", .nominal, none⟩
    y := ⟨"sales", .quantitative, some "Sales"⟩
    y2 := some ⟨"profit", .quantitative, none⟩
    color := some ⟨"quarter", .ordinal, none⟩ }
  style := { Style.plain with showDataLabels := true }
  orientation := some .horizontal
  errorBar := some ⟨.confidence, some 90⟩
  facet := some ⟨"quarter", some 2, true, true⟩
  trendline := some .linear
  annotations := []
  exportConfig := .usual

theorem violations_crowded : crowded.violations = [] := by
  decide +kernel

end ChartSpec

/-- Rows in which a region has no number, and one row has no quarter. -/
def Table.sales : Table := [
  [("profit", .number (.integer 1)), ("quarter", .string "Q1"),
    ("region", .string "North"), ("sales", .number (.integer 10))],
  [("profit", .number (.integer 3)), ("quarter", .string "Q2"),
    ("region", .string "South"), ("sales", .null)],
  [("profit", .number (.integer 2)), ("region", .string "North"),
    ("sales", .number (.integer 30))]]

end ChartCompiler
