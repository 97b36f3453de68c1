import ChartCompiler.Proofs.Presentation
import Mathlib.Data.List.Forall2

/-!
# What a chart depends on

A chart reads its rows through the fields that it shows, and those are the two
first channels and the channels of features that stay. So tables that agree on
the cells of these fields give the same chart. Of the specification it reads
neither the columns nor the export settings, and the value of an error bar only
as a confidence level. `compile_reads` says all of that at once.
-/

namespace ChartCompiler

open Statistics

/-! ## Tables that agree row by row -/

namespace Table

variable {rows other : Table} {x y : String}

/-- The labels of a field decide its categories. -/
theorem distinctLabels_eq_of_forall₂
    (h : List.Forall₂ (fun row counterpart : Row => row.label? x = counterpart.label? x)
      rows other) : rows.distinctLabels x = other.distinctLabels x := by
  unfold distinctLabels
  refine List.rel_foldl (P := Eq) ?_ rfl h
  rintro seen _ rfl row counterpart hlabel
  dsimp only
  rw [hlabel]

/-- The labels of one field and the numbers of another decide the groups. -/
theorem groupValues_eq_of_forall₂
    (h : List.Forall₂ (fun row counterpart : Row => row.label? x = counterpart.label? x ∧
      row.number? y = counterpart.number? y) rows other) :
    rows.groupValues x y = other.groupValues x y := by
  unfold groupValues
  refine List.rel_foldl (P := Eq) ?_ rfl h
  rintro groups _ rfl row counterpart ⟨hlabel, hnumber⟩
  dsimp only
  rw [hlabel, hnumber]

end Table

/-! ## Tables that agree on some fields -/

/-- The rows have the same cells in the given fields. -/
def Row.AgreesOn (fields : List String) (row other : Row) : Prop :=
  ∀ field ∈ fields, row.get? field = other.get? field

namespace Row.AgreesOn

variable {fields : List String} {row other : Row} (hagree : row.AgreesOn fields other)
  {field : String} (hfield : field ∈ fields)
include hagree hfield

theorem label?_eq : row.label? field = other.label? field := by
  unfold Row.label?
  rw [hagree field hfield]

theorem number?_eq : row.number? field = other.number? field := by
  unfold Row.number?
  rw [hagree field hfield]

end Row.AgreesOn

/-- As many rows, and each agrees with its counterpart. -/
def Table.AgreesOn (fields : List String) (rows other : Table) : Prop :=
  List.Forall₂ (Row.AgreesOn fields) rows other

/-- The same keys, and the rows behind each of them agree. -/
def Table.PartsAgreeOn (fields : List String) (parts other : Groups Row) : Prop :=
  List.Forall₂ (fun part counterpart =>
    part.1 = counterpart.1 ∧ Table.AgreesOn fields part.2 counterpart.2) parts other

namespace Table.AgreesOn

variable {fields : List String}

/-- A row joins the same part on both sides. -/
theorem add {parts other : Groups Row} (hparts : PartsAgreeOn fields parts other)
    {row counterpart : Row} (hrow : row.AgreesOn fields counterpart) (key : String) :
    PartsAgreeOn fields (parts.add key [row]) (other.add key [counterpart]) := by
  have hsingle : Table.AgreesOn fields [row] [counterpart] := .cons hrow .nil
  induction hparts with
  | nil => exact .cons ⟨rfl, hsingle⟩ .nil
  | @cons part counterpart parts other hpart hrest ih =>
      obtain ⟨label, rows⟩ := part
      obtain ⟨_, others⟩ := counterpart
      obtain ⟨rfl, hrows⟩ := hpart
      unfold Groups.add
      split
      · exact .cons ⟨rfl, List.rel_append hrows hsingle⟩ hrest
      · exact .cons ⟨rfl, hrows⟩ ih

variable {rows other : Table} (hagree : rows.AgreesOn fields other)
include hagree

theorem filterMap_eq {α : Type} {read : Row → Option α}
    (hread : ∀ row counterpart, row.AgreesOn fields counterpart →
      read row = read counterpart) : rows.filterMap read = other.filterMap read := by
  induction hagree with
  | nil => rfl
  | cons hrow _ ih => rw [List.filterMap_cons, List.filterMap_cons, hread _ _ hrow, ih]

section Reading

variable {x y : String} (hx : x ∈ fields) (hy : y ∈ fields)

section One

include hx

theorem distinctLabels_eq : rows.distinctLabels x = other.distinctLabels x :=
  distinctLabels_eq_of_forall₂ (hagree.imp fun _ _ hrow => hrow.label?_eq hx)

theorem withLabel_agreesOn (label : String) :
    (rows.withLabel x label).AgreesOn fields (other.withLabel x label) := by
  unfold withLabel
  refine List.rel_filter ?_ hagree
  intro row counterpart hrow
  dsimp only
  rw [hrow.label?_eq hx]

theorem partition_agreesOn :
    PartsAgreeOn fields (rows.partition x) (other.partition x) := by
  unfold partition
  refine List.rel_foldl ?_ .nil hagree
  intro parts counterparts hparts row counterpart hrow
  dsimp only
  rw [hrow.label?_eq hx]
  exact add hparts hrow _

theorem numbers_eq :
    rows.filterMap (fun row => row.number? x) =
      other.filterMap fun row => row.number? x :=
  hagree.filterMap_eq fun _ _ hrow => hrow.number?_eq hx

end One

include hx hy

theorem groupValues_eq : rows.groupValues x y = other.groupValues x y :=
  groupValues_eq_of_forall₂ (hagree.imp fun _ _ hrow => ⟨hrow.label?_eq hx, hrow.number?_eq hy⟩)

theorem numberPairs_eq : rows.numberPairs x y = other.numberPairs x y := by
  unfold numberPairs
  apply hagree.filterMap_eq
  intro row counterpart hrow
  rw [hrow.number?_eq hx, hrow.number?_eq hy]

end Reading

end Table.AgreesOn

/-! ## Series -/

namespace SeriesRequest

/-- The channels of the request are among the given fields. -/
structure ReadsFrom (request : SeriesRequest) (fields : List String) : Prop where
  x : request.x.field ∈ fields
  y : request.y.field ∈ fields
  group : ∀ group, request.group = some group → group.field ∈ fields

section Build

variable {request : SeriesRequest} {fields : List String}
  (hreads : request.ReadsFrom fields) {rows other : Table}
  (hagree : rows.AgreesOn fields other)
include hreads hagree

theorem categorySeries_eq_of_agreesOn :
    request.categorySeries rows = request.categorySeries other := by
  unfold categorySeries
  cases hgroup : request.group with
  | none =>
      dsimp only
      unfold wholeSeries
      rw [hagree.groupValues_eq hreads.x hreads.y]
  | some group =>
      have hfield := hreads.group group hgroup
      have hmeans : request.groupMeans group rows = request.groupMeans group other := by
        funext categories key
        unfold groupMeans
        rw [(hagree.withLabel_agreesOn hfield key).groupValues_eq hreads.x hreads.y]
      dsimp only
      unfold groupedSeries
      rw [hagree.distinctLabels_eq hreads.x, hagree.distinctLabels_eq hfield, hmeans]

theorem scatterPoints_eq_of_agreesOn :
    request.scatterPoints rows = request.scatterPoints other := by
  unfold scatterPoints
  rw [hagree.numberPairs_eq hreads.x hreads.y]

theorem scatterSeries_eq_of_agreesOn :
    request.scatterSeries rows = request.scatterSeries other := by
  unfold scatterSeries
  rw [hagree.numberPairs_eq hreads.x hreads.y]
  cases hgroup : request.group with
  | none =>
      dsimp only
      rw [scatterPoints_eq_of_agreesOn hreads hagree]
  | some group =>
      have hfield := hreads.group group hgroup
      have hpoints (key : String) :
          request.scatterPoints (rows.withLabel group.field key) =
            request.scatterPoints (other.withLabel group.field key) :=
        scatterPoints_eq_of_agreesOn hreads (hagree.withLabel_agreesOn hfield key)
      dsimp only
      rw [hagree.distinctLabels_eq hfield]
      simp only [hpoints]

/-- Whatever the chart type, the series are read off the channels. -/
theorem build_eq_of_agreesOn : request.build rows = request.build other := by
  unfold build
  cases request.chartType with
  | scatter => exact scatterSeries_eq_of_agreesOn hreads hagree
  | histogram =>
      unfold histogramSeries
      dsimp only
      rw [hagree.numbers_eq hreads.x]
  | boxplot =>
      unfold boxplotSeries
      dsimp only
      rw [hagree.groupValues_eq hreads.x hreads.y]
  | violin =>
      unfold violinSeries
      dsimp only
      rw [hagree.groupValues_eq hreads.x hreads.y]
  | bar | groupedBar | stackedBar | line | area | errorBar =>
      exact categorySeries_eq_of_agreesOn hreads hagree

end Build

end SeriesRequest

/-! ## Figures -/

/-- Small multiples read the labels of the facet, and each part as its series do. -/
theorem FacetChart.build_eq_of_agreesOn {fields : List String} {rows other : Table}
    (hagree : rows.AgreesOn fields other) (chartType : ChartType) {encoding : Encoding}
    (hx : encoding.x.field ∈ fields) (hy : encoding.y.field ∈ fields) {facet : Facet}
    (hfacet : facet.field ∈ fields) (horizontal trendline : Bool) :
    build chartType encoding facet rows horizontal trendline =
      build chartType encoding facet other horizontal trendline := by
  have hparts := hagree.partition_agreesOn hfacet
  have hkeys : (rows.partition facet.field).keys = (other.partition facet.field).keys := by
    unfold Groups.keys
    rw [← List.forall₂_eq_eq_eq, List.forall₂_map_left_iff, List.forall₂_map_right_iff]
    exact hparts.imp fun _ _ hpart => hpart.1
  let request : SeriesRequest :=
    { chartType, x := encoding.x, y := encoding.y, group := none, trendline }
  have hreads : request.ReadsFrom fields := ⟨hx, hy, fun _ hnone => by cases hnone⟩
  have hsets : ((rows.partition facet.field).map fun part => request.build part.2) =
      (other.partition facet.field).map fun part => request.build part.2 := by
    rw [← List.forall₂_eq_eq_eq, List.forall₂_map_left_iff, List.forall₂_map_right_iff]
    exact hparts.imp fun _ _ hpart => request.build_eq_of_agreesOn hreads hpart.2
  unfold build
  dsimp only
  rw [hparts.length_eq, hkeys, hsets]

/-- The error bars are of one kind, and at one confidence level if they show one. -/
structure ErrorBar.ShowsAs (e other : ErrorBar) : Prop where
  kind : other.kind = e.kind
  value : e.kind = .confidence → other.value = e.value

namespace ErrorBar.ShowsAs

/-- Two parts that may both be missing are replaced by the same one then. -/
theorem getD {part other : Option ErrorBar} (hsame : Option.Rel ShowsAs part other)
    (usual : ErrorBar) : (part.getD usual).ShowsAs (other.getD usual) := by
  cases hsame with
  | none => exact ⟨rfl, fun _ => rfl⟩
  | some hbar => exact hbar

theorem isSome_eq {part other : Option ErrorBar}
    (hsame : Option.Rel ShowsAs part other) : other.isSome = part.isSome := by
  cases hsame with
  | none => rfl
  | some _ => rfl

variable {e other : ErrorBar} (hsame : e.ShowsAs other)
include hsame

theorem dispersion_eq (values : List Float) :
    other.dispersion values = e.dispersion values := by
  unfold ErrorBar.dispersion
  rw [hsame.kind]
  cases hkind : e.kind with
  | confidence =>
      dsimp only
      unfold ErrorBar.confidenceLevel
      rw [hsame.value hkind]
  | standardError | standardDeviation | quartiles => rfl

theorem of?_eq : ErrorBarPoint.of? other = ErrorBarPoint.of? e := by
  funext category values
  unfold ErrorBarPoint.of?
  simp only [hsame.kind, hsame.dispersion_eq]

theorem build_eq (chartType : ChartType) (encoding : Encoding) (rows : Table) :
    ErrorBarChart.build chartType encoding other rows =
      ErrorBarChart.build chartType encoding e rows := by
  unfold ErrorBarChart.build
  rw [hsame.of?_eq]

end ErrorBar.ShowsAs

theorem ErrorBarChart.build_eq_of_agreesOn {fields : List String} {rows other : Table}
    (hagree : rows.AgreesOn fields other) (chartType : ChartType) {encoding : Encoding}
    (hx : encoding.x.field ∈ fields) (hy : encoding.y.field ∈ fields) (e : ErrorBar) :
    build chartType encoding e rows = build chartType encoding e other := by
  unfold build
  dsimp only
  rw [hagree.groupValues_eq hx hy]

theorem DualAxis.build_eq_of_agreesOn {fields : List String} {rows other : Table}
    (hagree : rows.AgreesOn fields other) {x y2 : FieldDef} (hx : x.field ∈ fields)
    (hy2 : y2.field ∈ fields) (primary : Axis) (categories colors : List String) :
    build primary x y2 categories rows colors =
      build primary x y2 categories other colors := by
  unfold build
  rw [hagree.groupValues_eq hx hy2]

namespace ChartSpec

def shown {α : Type} (spec : ChartSpec) (f : Feature) (part : Option α) : Option α :=
  if spec.resolution.isActive f then part else none

/-- The fields that a chart shows: the first two channels, and the channels of the
features that stay. -/
def shownFields (spec : ChartSpec) : List String :=
  [spec.encoding.x.field, spec.encoding.y.field] ++
    ((spec.shown .facet spec.facet).map Facet.field).toList ++
    ((spec.shown .dualAxis spec.encoding.y2).map FieldDef.field).toList ++
    ((spec.shown .colorGroup spec.encoding.color).map FieldDef.field).toList

section Shown

variable (spec : ChartSpec)

theorem x_mem_shownFields : spec.encoding.x.field ∈ spec.shownFields := by
  simp [shownFields]

theorem y_mem_shownFields : spec.encoding.y.field ∈ spec.shownFields := by
  simp [shownFields]

variable {spec}

theorem facet_mem_shownFields {facet : Facet}
    (hshown : spec.shown .facet spec.facet = some facet) :
    facet.field ∈ spec.shownFields := by
  simp [shownFields, hshown]

theorem y2_mem_shownFields {y2 : FieldDef}
    (hshown : spec.shown .dualAxis spec.encoding.y2 = some y2) :
    y2.field ∈ spec.shownFields := by
  simp [shownFields, hshown]

theorem color_mem_shownFields {color : FieldDef}
    (hshown : spec.shown .colorGroup spec.encoding.color = some color) :
    color.field ∈ spec.shownFields := by
  simp [shownFields, hshown]

variable (spec)

/-- What the series of a single plot are asked to show. -/
def shownRequest : SeriesRequest :=
  { spec.plainRequest with group := spec.shown .colorGroup spec.encoding.color }

theorem group_shownRequest :
    spec.shownRequest.group = spec.shown .colorGroup spec.encoding.color := by
  simp only [shownRequest]

theorem readsFrom_shownRequest : spec.shownRequest.ReadsFrom spec.shownFields := by
  refine ⟨spec.x_mem_shownFields, spec.y_mem_shownFields, ?_⟩
  intro color hgroup
  rw [group_shownRequest] at hgroup
  exact color_mem_shownFields hgroup

end Shown

section Rows

variable (spec : ChartSpec) {rows other : Table}
  (hagree : rows.AgreesOn spec.shownFields other)
include hagree

theorem plainFigure_eq_of_agreesOn (palette : List String) :
    spec.plainFigure spec.resolution palette rows =
      spec.plainFigure spec.resolution palette other := by
  have hx := spec.x_mem_shownFields
  have hset : spec.shownRequest.build rows = spec.shownRequest.build other :=
    SeriesRequest.build_eq_of_agreesOn spec.readsFrom_shownRequest hagree
  unfold plainFigure
  dsimp only [shownRequest, plainRequest, shown] at hset ⊢
  rw [hset]
  split
  · next y2 hy2 =>
      rw [DualAxis.build_eq_of_agreesOn hagree hx (y2_mem_shownFields hy2)]
  · rfl

/-- Which of the three figures is drawn does not depend on the rows, and each reads
only the fields that are shown. -/
theorem figure_eq_of_agreesOn (palette : List String) :
    spec.figure spec.resolution palette rows =
      spec.figure spec.resolution palette other := by
  have hx := spec.x_mem_shownFields
  have hy := spec.y_mem_shownFields
  unfold figure
  split
  · unfold errorBarFigure
    rw [ErrorBarChart.build_eq_of_agreesOn hagree _ hx hy]
  · split
    · next facet hfacet =>
        unfold facetFigure
        rw [FacetChart.build_eq_of_agreesOn hagree _ hx hy (facet_mem_shownFields hfacet)]
    · exact spec.plainFigure_eq_of_agreesOn hagree palette

end Rows

/-! ## Specifications -/

/-- The specifications differ in nothing but their columns, their export settings, and
values of error bars that are no confidence levels. -/
structure ShowsAs (spec other : ChartSpec) : Prop where
  rest : other = { spec with
    columns := other.columns
    errorBar := other.errorBar
    exportConfig := other.exportConfig }
  errorBar : Option.Rel ErrorBar.ShowsAs spec.errorBar other.errorBar

namespace ShowsAs

variable {spec other : ChartSpec} (hsame : spec.ShowsAs other)
include hsame

/-- They ask for the same features, so the same ones stay. -/
theorem resolution_eq : other.resolution = spec.resolution := by
  have hrequests : other.requests = spec.requests := by
    funext f
    cases f with
    | errorBar =>
        unfold requests
        rw [ErrorBar.ShowsAs.isSome_eq hsame.errorBar, hsame.rest]
    | facet | dualAxis | colorGroup | horizontal =>
        rw [hsame.rest]
        rfl
  unfold resolution requestedFeatures
  rw [hrequests, hsame.rest]

theorem figure_eq (r : Resolution) (palette : List String) (rows : Table) :
    other.figure r palette rows = spec.figure r palette rows := by
  have hbars : other.errorBarFigure rows = spec.errorBarFigure rows := by
    have hbar : spec.errorBarOrUsual.ShowsAs other.errorBarOrUsual :=
      ErrorBar.ShowsAs.getD hsame.errorBar _
    unfold errorBarFigure
    rw [hbar.build_eq, hsame.rest]
  unfold figure
  rw [hbars, hsame.rest]
  rfl

theorem config_eq_of_showsAs (rows : Table) : other.config rows = spec.config rows := by
  rw [config_eq, config_eq, hsame.resolution_eq, hsame.figure_eq]
  rw [hsame.rest]
  exact present_congr rfl rfl rfl (fun _ _ => rfl) _

end ShowsAs

/-- For every two valid specifications that differ only in what no chart reads, and
every two tables of one length that agree row by row on the fields that the chart
shows: the compiled configurations are the same. -/
theorem compile_reads {spec other : ChartSpec} (hvalid : spec.violations = [])
    (hother : other.violations = []) (hsame : spec.ShowsAs other) {rows rows' : Table}
    (hagree : rows.AgreesOn spec.shownFields rows') :
    ∃ config, compile spec rows = .ok config ∧ compile other rows' = .ok config := by
  refine ⟨spec.config rows, compile_eq_ok hvalid rows, ?_⟩
  rw [compile_eq_ok hother, hsame.config_eq_of_showsAs, config_eq, config_eq,
    spec.figure_eq_of_agreesOn hagree]

def crowdedErrors (value : Option Float) : ChartSpec :=
  { crowded with errorBar := some ⟨.standardError, value⟩ }

/-- Standard errors take no level, and nothing but the regions and their sales is
shown beside them. -/
theorem compile_reads_crowded :
    let other : ChartSpec := { crowdedErrors (some 90) with
      columns := crowded.columns.reverse
      exportConfig := { ExportConfig.usual with dpi := 72 } }
    let bare : Table := [
      [("region", .string "North"), ("sales", .number (.integer 10))],
      [("region", .string "South"), ("sales", .null)],
      [("quarter", .string "Q3"), ("region", .string "North"),
        ("sales", .number (.integer 30))]]
    (crowdedErrors none).violations = [] ∧ other.violations = [] ∧
      (crowdedErrors none).ShowsAs other ∧
      Table.sales.AgreesOn (crowdedErrors none).shownFields bare ∧
      ∃ config, compile (crowdedErrors none) .sales = .ok config ∧
        compile other bare = .ok config := by
  intro other bare
  have hvalid : (crowdedErrors none).violations = [] := by decide +kernel
  have hother : other.violations = [] := by decide +kernel
  have hsame : (crowdedErrors none).ShowsAs other :=
    ⟨rfl, .some ⟨rfl, fun hlevel => by cases hlevel⟩⟩
  have hshown : (crowdedErrors none).shownFields = ["region", "sales"] := by decide +kernel
  have hagree : Table.sales.AgreesOn (crowdedErrors none).shownFields bare := by
    rw [hshown]
    refine .cons ?_ (.cons ?_ (.cons ?_ .nil)) <;>
      exact List.forall_mem_cons.mpr ⟨rfl, List.forall_mem_singleton.mpr rfl⟩
  exact ⟨hvalid, hother, hsame, hagree, compile_reads hvalid hother hsame hagree⟩

end ChartSpec

end ChartCompiler
