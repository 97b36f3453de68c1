import ChartCompiler.Compile
import ChartCompiler.Proofs.DrawnNumbers
import ChartCompiler.Proofs.Overlays
import ChartCompiler.Proofs.Presentation
import ChartCompiler.Proofs.WrittenNumbers

/-!
# No number is written as null

Cells are read as finite doubles, but what is computed from them may overflow, and then a
`null` stands where a number should. `compile_finite` says that this takes cells or
positions beyond `2 ^ 256`, or a dash text with a number that is no finite double.
-/

namespace ChartCompiler

open Double

/-! ## Fonts -/

theorem Style.isFinite_fontSize (style : Style) : style.theme.fontSize.isFinite = true := by
  have hpreset : style.preset.look.fontSize.isFinite = true := by
    cases style.preset <;> rfl
  change (Theme.chooseSize _ _).isFinite = true
  unfold Theme.chooseSize
  split
  · split_ifs with hsize
    · exact (Bool.and_eq_true_iff.mp hsize).1
    · exact hpreset
  · exact hpreset

section Fonts

variable {theme : Theme} (htheme : theme.fontSize.isFinite = true)
include htheme

/-- Filling a gap with a finite size changes nothing. -/
theorem Theme.isFinite_getD (size : Option Float) :
    (size.getD theme.fontSize).isFinite = size.all Float.isFinite := by
  cases size with
  | none => exact htheme
  | some size => rfl

theorem TextStyle.isFinite_fill (t : TextStyle) :
    (t.fill theme).toJson.isFinite = t.toJson.isFinite := by
  simp [fill, Theme.isFinite_getD htheme]

theorem Axis.isFinite_fillFonts (a : Axis) :
    (a.fillFonts theme).toJson.isFinite = a.toJson.isFinite := by
  simp [fillFonts, TextStyle.fill, Theme.isFinite_getD htheme]

theorem Series.isFinite_fillFonts (s : Series) :
    (s.fillFonts theme).toJson.isFinite = s.toJson.isFinite := by
  cases hlabel : s.label with
  | none => simp [fillFonts, hlabel]
  | some label => simp [fillFonts, Label.fillFonts, hlabel, Theme.isFinite_getD htheme]

theorem Graphic.isFinite_fillFonts (g : Graphic) :
    (g.fillFonts theme).toJson.isFinite = g.toJson.isFinite := by
  simp [fillFonts, Theme.isFinite_getD htheme]

end Fonts

/-! ## Presentation -/

theorem Datum.isFinite_of_value? {d : Datum}
    (hd : ∀ v, d.value? = some v → v.isFinite = true) : d.isFinite = true := by
  cases d with
  | number x => exact hd x rfl
  | text | count | gap => rfl

theorem Series.IsFinite.toJson {s : Series} (hs : s.IsFinite) : s.toJson.isFinite = true := by
  simp only [Series.isFinite_toJson, Bool.and_eq_true, List.all_eq_true, Option.all_eq_true]
  exact ⟨⟨fun p hp d hd => Datum.isFinite_of_value? (hs.data p hp d hd), hs.dash⟩, hs.label⟩

structure Figure.IsFinite (figure : Figure) : Prop where
  axes : ∀ a ∈ figure.xAxis.toList ++ figure.yAxis.toList, a.toJson.isFinite = true
  series : ∀ s ∈ figure.series, s.IsFinite

/-- Titles are placed in percent. -/
theorem FacetCell.isFinite_title (cell : FacetCell) (text : String) :
    (cell.title text).toJson.isFinite = true := by
  simp [title, GraphicShape.coords, Coord.isFinite, GraphicStyle.unset]

namespace ChartSpec

theorem isFinite_finish (spec : ChartSpec) (horizontal : Bool) {s : Series} (hs : s.IsFinite) :
    (spec.finish horizontal s).toJson.isFinite = true := by
  have hlabels : (s.withLabels horizontal).IsFinite :=
    ⟨hs.data, hs.dash, fun label hlabel size hsize => by
      obtain rfl := Option.some.inj hlabel
      cases hsize⟩
  unfold finish
  rw [Series.isFinite_fillFonts spec.style.isFinite_fontSize]
  split_ifs
  · exact hlabels.toJson
  · exact hs.toJson

/-- The graphics are the titles of small multiples and the annotations. -/
theorem mem_graphic_present {spec : ChartSpec} {r : Resolution} {figure : Figure} {g : Graphic}
    (hg : g ∈ (spec.present r figure).graphic.getD []) :
    ∃ bare ∈ figure.titles ++ spec.annotations.map Annotation.graphic,
      g = bare.fillFonts spec.style.theme := by
  unfold present RenderConfig.withTheme at hg
  dsimp only at hg
  split_ifs at hg with hnone
  · exact nomatch hg
  · obtain ⟨bare, hbare, rfl⟩ := List.mem_map.mp hg
    exact ⟨bare, hbare, rfl⟩

theorem textStyle_legend (r : Resolution) (series : List Series) :
    (Legend.of r series).textStyle = .unset := by
  unfold Legend.of
  split <;> rfl

/-- Labels, fonts and overlays bring no other numbers than their own. -/
theorem isFinite_present {spec : ChartSpec} {figure : Figure} (hfigure : figure.IsFinite)
    (htitles : ∀ g ∈ figure.titles, ∃ cell text, g = FacetCell.title cell text)
    (hannotations : ∀ a ∈ spec.annotations, a.graphic.toJson.isFinite = true) (r : Resolution) :
    (spec.present r figure).toJson.isFinite = true := by
  have htheme := spec.style.isFinite_fontSize
  have hunset : (TextStyle.unset.fill spec.style.theme).toJson.isFinite = true := by
    rw [TextStyle.isFinite_fill htheme]
    rfl
  rw [RenderConfig.isFinite_toJson]
  simp only [Bool.and_eq_true]
  refine ⟨⟨⟨?_, ?_⟩, ?_⟩, ?_⟩
  · rw [xAxis_present, yAxis_present, OneOrMany.toList_map, OneOrMany.toList_map,
      ← List.map_append, List.all_map, List.all_eq_true]
    exact fun a ha => (Axis.isFinite_fillFonts htheme a).trans (hfigure.axes a ha)
  · rw [series_present, List.all_map, List.all_eq_true]
    exact fun s hs => isFinite_finish spec _ (hfigure.series s hs)
  · rw [Option.all_eq_true]
    intro gs hgs
    rw [List.all_eq_true]
    intro g hg
    have hmem : g ∈ (spec.present r figure).graphic.getD [] := by
      rw [hgs]
      exact hg
    obtain ⟨bare, hbare, rfl⟩ := mem_graphic_present hmem
    rw [Graphic.isFinite_fillFonts htheme]
    rcases List.mem_append.mp hbare with htitle | hannotation
    · obtain ⟨cell, text, rfl⟩ := htitles bare htitle
      exact cell.isFinite_title text
    · obtain ⟨a, ha, rfl⟩ := List.mem_map.mp hannotation
      exact hannotations a ha
  · rw [List.all_eq_true]
    intro t ht
    simp only [List.mem_cons, List.not_mem_nil, or_false] at ht
    rcases ht with rfl | rfl | rfl
    · change ((Legend.of r _).textStyle.fill _).toJson.isFinite = true
      rw [textStyle_legend]
      exact hunset
    · exact hunset
    · rw [TextStyle.isFinite_toJson]
      exact htheme

end ChartSpec

/-! ## Figures -/

theorem FacetChart.isFinite_axisBounds (chartType : ChartType) {extent : Float × Float}
    (hlow : extent.1.isFinite = true) (hhigh : extent.2.isFinite = true) :
    (axisBounds chartType extent).1.isFinite = true ∧
      (axisBounds chartType extent).2.isFinite = true := by
  have hzero : (0 : Float).isFinite = true := rfl
  unfold axisBounds
  split_ifs
  · constructor
    · rcases Statistics.lesser_cases extent.1 0 with heq | heq
      · rw [heq, hlow]
      · rw [heq, hzero]
    · rcases Statistics.greater_cases extent.2 0 with heq | heq
      · rw [heq, hhigh]
      · rw [heq, hzero]
  · exact ⟨hlow, hhigh⟩

structure PlotArea.IsFinite (area : PlotArea) : Prop where
  x : area.axes.x.toJson.isFinite = true
  y : area.axes.y.toJson.isFinite = true
  series : ∀ s ∈ area.series, s.IsFinite

namespace PlotArea.IsFinite

/-- Axes have no bounds of their own. -/
theorem upright (chartType : ChartType) (encoding : Encoding) {set : SeriesSet}
    (hset : ∀ s ∈ set.series, s.IsFinite) : (upright chartType encoding set).IsFinite := by
  obtain ⟨categories, series, extent⟩ := set
  refine ⟨?_, ?_, hset⟩
  · cases categories <;> exact Axis.isFinite_toJson _
  · cases chartType <;> rfl

variable {area : PlotArea} (harea : area.IsFinite)
include harea

theorem turn : area.turn.IsFinite := by
  refine ⟨harea.y, harea.x, fun s hs => ?_⟩
  obtain ⟨t, ht, rfl⟩ := List.mem_map.mp hs
  obtain ⟨hdata, hdash, hlabel⟩ := harea.series t ht
  exact ⟨hdata, hdash, hlabel⟩

theorem oriented (horizontal : Bool) : (area.oriented horizontal).IsFinite := by
  unfold PlotArea.oriented
  split_ifs
  · exact harea.turn
  · exact harea

theorem bind (index : Nat) : (area.bind index).IsFinite := by
  refine ⟨?_, ?_, fun s hs => ?_⟩
  · have hx := harea.x
    rw [Axis.isFinite_toJson] at hx ⊢
    exact hx
  · have hy := harea.y
    rw [Axis.isFinite_toJson] at hy ⊢
    exact hy
  · obtain ⟨t, ht, rfl⟩ := List.mem_map.mp hs
    obtain ⟨hdata, hdash, hlabel⟩ := harea.series t ht
    exact ⟨hdata, hdash, hlabel⟩

/-- Shared bounds are ends of an extent, or zero. -/
theorem shareBounds (chartType : ChartType) {shared : Option (Float × Float)}
    (hshared : ∀ extent ∈ shared, extent.1.isFinite = true ∧ extent.2.isFinite = true) :
    (FacetChart.shareBounds chartType shared area).IsFinite := by
  cases shared with
  | none => exact harea
  | some extent =>
      obtain ⟨hlow, hhigh⟩ := hshared extent rfl
      have hbounds := FacetChart.isFinite_axisBounds chartType hlow hhigh
      refine ⟨harea.x, ?_, harea.series⟩
      have hy := harea.y
      rw [Axis.isFinite_toJson] at hy ⊢
      simp only [Bool.and_eq_true] at hy ⊢
      exact ⟨⟨⟨hbounds.1, hbounds.2⟩, hy.1.2⟩, hy.2⟩

theorem figure : (Figure.ofArea area).IsFinite := by
  refine ⟨fun a ha => ?_, harea.series⟩
  rcases List.mem_pair.mp ha with rfl | rfl
  · exact harea.x
  · exact harea.y

end PlotArea.IsFinite

namespace FacetChart

section Facets

variable {chartType : ChartType} (hviolin : chartType ≠ .violin) (encoding : Encoding)
  {trendline : Bool} (htrend : trendline = true → chartType = .scatter) {rows : Table}
  (hrows : rows.IsModerate)
include hviolin htrend hrows

/-- The extent that cells share runs between values that they draw. -/
theorem isFinite_sharedExtent? (field : String) :
    ∀ extent ∈ sharedExtent? (cellSets chartType encoding trendline (rows.partition field)),
      extent.1.isFinite = true ∧ extent.2.isFinite = true := by
  obtain ⟨values, hspans, hvalues⟩ : ∃ values,
      Spans (sharedExtent? (cellSets chartType encoding trendline (rows.partition field)))
        values ∧ ∀ v ∈ values, v.isFinite = true := by
    cases trendline with
    | true =>
        obtain rfl := htrend rfl
        refine ⟨_, spans_sharedExtent?_points encoding rows field true, fun v hv => ?_⟩
        obtain ⟨pair, hpair, rfl⟩ := List.mem_map.mp hv
        exact (Table.isFinite_of_mem_numberPairs hpair).2
    | false =>
        refine ⟨_, spans_sharedExtent? fun part hpart => SeriesRequest.spans_build _
          (((length_part_le hpart).trans hrows.length_le).trans_lt (by norm_num)) hviolin rfl rfl,
          fun v hv => ?_⟩
        obtain ⟨part, hpart, hmeasured⟩ := List.mem_flatMap.mp hv
        obtain ⟨s, hs, hdrawn⟩ := List.mem_flatMap.mp hmeasured
        exact ((SeriesRequest.isFinite_build _ (hrows.of_mem_partition hpart) hviolin) s
          hs).of_mem_measured hdrawn
  intro extent hextent
  rw [Option.mem_def.mp hextent] at hspans
  exact ⟨hvalues _ hspans.low_mem, hvalues _ hspans.high_mem⟩

theorem isFinite_areas (facet : Facet) (horizontal : Bool) :
    ∀ area ∈ (build chartType encoding facet rows horizontal trendline).areas, area.IsFinite := by
  rw [areas_eq]
  intro area harea
  obtain ⟨index, hindex, rfl⟩ := List.mem_mapIdx.mp harea
  have hpart := List.getElem_mem hindex
  have hset := SeriesRequest.isFinite_build (cellRequest chartType encoding trendline)
    (hrows.of_mem_partition hpart) hviolin
  refine (((PlotArea.IsFinite.upright chartType encoding hset).shareBounds chartType
    fun extent hextent => ?_).oriented horizontal).bind index
  split_ifs at hextent
  · exact isFinite_sharedExtent? hviolin encoding htrend hrows facet.field extent hextent
  · exact nomatch hextent

theorem isFinite_figure (facet : Facet) (horizontal : Bool) :
    (Figure.ofFacets (build chartType encoding facet rows horizontal trendline)).IsFinite := by
  have hareas := isFinite_areas hviolin encoding htrend hrows facet horizontal
  refine ⟨fun a ha => ?_, fun s hs => ?_⟩
  · rcases List.mem_append.mp ha with hx | hy
    · obtain ⟨area, harea, rfl⟩ := List.mem_map.mp hx
      exact (hareas area harea).x
    · obtain ⟨area, harea, rfl⟩ := List.mem_map.mp hy
      exact (hareas area harea).y
  · obtain ⟨area, harea, hmem⟩ := List.mem_flatMap.mp hs
    exact (hareas area harea).series s hmem

end Facets

end FacetChart

namespace ChartSpec

section Figures

variable {spec : ChartSpec} (hviolin : spec.chartType ≠ .violin) {rows : Table}
  (hrows : rows.IsModerate)
include hviolin hrows

theorem isFinite_plainFigure (r : Resolution) (palette : List String) :
    (spec.plainFigure r palette rows).IsFinite := by
  unfold plainFigure
  dsimp only
  generalize hrequest : SeriesRequest.mk spec.chartType spec.encoding.x spec.encoding.y
    (if r.isActive .colorGroup then spec.encoding.color else none) spec.wantsTrendline = request
  have harea : (PlotArea.upright spec.chartType spec.encoding (request.build rows)).IsFinite := by
    refine .upright _ _ (request.isFinite_build hrows ?_)
    rw [← hrequest]
    exact hviolin
  split
  · next y2 _ =>
      refine ⟨fun a ha => ?_, fun s hs => ?_⟩
      · rcases List.mem_cons.mp ha with rfl | hy
        · exact harea.x
        · have hprimary := harea.y
          rw [Axis.isFinite_toJson] at hprimary
          rcases List.mem_pair.mp hy with rfl | rfl
          · rw [Axis.isFinite_toJson]
            exact hprimary
          · rfl
      · rcases List.mem_append.mp hs with hown | hline
        · exact harea.series s hown
        · obtain rfl := List.mem_singleton.mp hline
          exact DualAxis.isFinite_series _ _ _ _ hrows _
  · exact (harea.oriented _).figure

theorem isFinite_figure (hconfidence : spec.resolution.isActive .errorBar = true →
      spec.errorBarOrUsual.kind ≠ .confidence) (palette : List String) :
    (spec.figure spec.resolution palette rows).IsFinite := by
  unfold figure
  by_cases herror : spec.resolution.isActive .errorBar = true
  · rw [if_pos herror]
    refine PlotArea.IsFinite.figure ⟨?_, ?_, ?_⟩
    · rw [Axis.isFinite_toJson]
      rfl
    · rw [Axis.isFinite_toJson]
      rfl
    · exact ErrorBarChart.isFinite_series _ _ (hconfidence herror) hrows
  · rw [if_neg herror]
    split
    · refine FacetChart.isFinite_figure hviolin _ (fun htrend => ?_) hrows _ _
      exact of_decide_eq_true (Bool.and_eq_true_iff.mp htrend).1
    · exact isFinite_plainFigure hviolin hrows _ _

end Figures

end ChartSpec

/-! ## Annotations -/

def Position.IsModerate : Position → Prop
  | .pixels x | .percent x => Double.IsModerate x
  | .keyword _ => True

instance (p : Position) : Decidable p.IsModerate :=
  match p with
  | .pixels x | .percent x => inferInstanceAs (Decidable (Double.IsModerate x))
  | .keyword _ => inferInstanceAs (Decidable True)

/-- The lengths that are given are finite, and so are those that a text stands for. -/
def StrokeDash.IsFinite : StrokeDash → Prop
  | .width w => w.isFinite = true
  | .pattern lengths => ∀ x ∈ lengths, x.isFinite = true
  | .named text => ∀ lengths ∈ Dash.parse? text.toList, ∀ x ∈ lengths, x.isFinite = true

instance (d : StrokeDash) : Decidable d.IsFinite :=
  match d with
  | .width w => inferInstanceAs (Decidable (w.isFinite = true))
  | .pattern lengths => inferInstanceAs (Decidable (∀ x ∈ lengths, x.isFinite = true))
  | .named text => inferInstanceAs
      (Decidable (∀ lengths ∈ Dash.parse? text.toList, ∀ x ∈ lengths, x.isFinite = true))

/-- Numbers are finite, as all numbers in JSON are; the corners of rectangles, whose
differences are taken, are of moderate size. -/
structure Annotation.IsModerate (a : Annotation) : Prop where
  coords : ∀ corner ∈ Corner.all, ∀ c ∈ a.coord? corner, c.isFinite = true
  corners : a.kind = .rect → ∀ corner ∈ Corner.all, ∀ p ∈ a.position? corner, p.IsModerate
  dash : ∀ dash ∈ a.strokeDash, dash.IsFinite

/-- Names stand for finite lengths. -/
theorem Dash.isFinite_named? {text : List Char} {lengths : List Float}
    (hnamed : named? text = some lengths) : ∀ x ∈ lengths, x.isFinite = true := by
  unfold named? at hnamed
  dsimp only at hnamed
  split_ifs at hnamed
  · obtain rfl := Option.some.inj hnamed
    decide +kernel
  · obtain rfl := Option.some.inj hnamed
    decide +kernel
  · obtain rfl := Option.some.inj hnamed
    decide +kernel

theorem StrokeDash.isFinite_pattern? {dash : StrokeDash} (hdash : dash.IsFinite)
    {lengths : List Float} (hpattern : dash.pattern? = some lengths) :
    ∀ x ∈ lengths, x.isFinite = true := by
  cases dash with
  | width w =>
      rw [pattern?] at hpattern
      split_ifs at hpattern
      obtain rfl := Option.some.inj hpattern
      intro x hx
      rcases List.mem_pair.mp hx with rfl | rfl
      · exact hdash
      · exact hdash
  | pattern given =>
      rw [pattern?] at hpattern
      split_ifs at hpattern
      obtain rfl := Option.some.inj hpattern
      exact hdash
  | named text =>
      rcases Option.or_eq_some_iff.mp hpattern with hnamed | ⟨-, hparsed⟩
      · exact Dash.isFinite_named? hnamed
      · exact hdash lengths hparsed

/-- The coordinate is a number, or reads back as a percentage. -/
def Coord.IsSize (c : Coord) : Prop :=
  ∀ text, c = .expression text → ∃ v, c.position? = some (.percent v)

section Distances

variable {start stop : Option Coord}
  (hstart : ∀ p, start.bind Coord.position? = some p → p.IsModerate)
  (hstop : ∀ p, stop.bind Coord.position? = some p → p.IsModerate)
include hstart hstop

/-- The difference of two moderate positions is finite and can be read back. -/
theorem Coord.distance_spec :
    (Coord.distance start stop).isFinite = true ∧ (Coord.distance start stop).IsSize := by
  have hdifference {a b : Float} (ha : Double.IsModerate a) (hb : Double.IsModerate b) :
      (b - a).isFinite = true := (hb.bounded.sub ha.bounded (by norm_num)).isFinite
  unfold distance
  split
  · next a b ha hb =>
      exact ⟨hdifference (hstart _ ha) (hstop _ hb), fun _ htext => nomatch htext⟩
  · next a b ha hb =>
      exact ⟨rfl, fun _ _ => position?_percentText (hdifference (hstart _ ha) (hstop _ hb))⟩
  · exact ⟨rfl, fun _ htext => nomatch htext⟩

end Distances

def GraphicShape.HasSizes : GraphicShape → Prop
  | .rect _ _ width height => width.IsSize ∧ height.IsSize
  | .text .. | .line .. => True

namespace Annotation

variable {a : Annotation} (ha : a.IsModerate)
include ha

theorem IsModerate.distances (hkind : a.kind = .rect) :
    ((Coord.distance a.x a.x2).isFinite = true ∧ (Coord.distance a.x a.x2).IsSize) ∧
      (Coord.distance a.y a.y2).isFinite = true ∧ (Coord.distance a.y a.y2).IsSize := by
  have hcorner (corner : Corner) := ha.corners hkind corner (Corner.mem_all corner)
  exact ⟨Coord.distance_spec (hcorner .x) (hcorner .x2),
    Coord.distance_spec (hcorner .y) (hcorner .y2)⟩

theorem isFinite_shape : a.shape.coords.all Coord.isFinite = true := by
  have hgiven (corner : Corner) {other : Coord} (hother : other.isFinite = true) :
      ((a.coord? corner).getD other).isFinite = true := by
    cases hcoord : a.coord? corner with
    | none => exact hother
    | some c => exact ha.coords corner (Corner.mem_all corner) c hcoord
  have horigin : Coord.origin.isFinite = true := rfl
  unfold shape
  cases hkind : a.kind with
  | text =>
      simp only [GraphicShape.coords, List.all_cons, List.all_nil, Bool.and_true,
        Bool.and_eq_true]
      exact ⟨hgiven .x rfl, hgiven .y rfl⟩
  | line =>
      simp only [GraphicShape.coords, List.all_cons, List.all_nil, Bool.and_true,
        Bool.and_eq_true]
      exact ⟨hgiven .x horigin, hgiven .y horigin, hgiven .x2 horigin, hgiven .y2 horigin⟩
  | rect =>
      obtain ⟨⟨hwidth, -⟩, hheight, -⟩ := ha.distances hkind
      simp only [GraphicShape.coords, List.all_cons, List.all_nil, Bool.and_true,
        Bool.and_eq_true]
      exact ⟨hgiven .x horigin, hgiven .y horigin, hwidth, hheight⟩

theorem isFinite_style : a.style.toJson.isFinite = true := by
  have hone : (1 : Float).isFinite = true := rfl
  unfold style
  cases a.kind with
  | text => simp [GraphicStyle.unset]
  | line =>
      simp only [GraphicStyle.isFinite_toJson, GraphicStyle.unset, Bool.and_eq_true,
        Option.all_eq_true, List.all_eq_true]
      refine ⟨⟨?_, fun lengths hlengths => ?_⟩, fun _ hsize => (nomatch hsize)⟩
      · rintro _ ⟨⟩
        rfl
      · obtain ⟨dash, hdash, hpattern⟩ := Option.bind_eq_some_iff.mp hlengths
        exact StrokeDash.isFinite_pattern? (ha.dash dash hdash) hpattern
  | rect => simp [GraphicStyle.unset, hone]

theorem isFinite_graphic : a.graphic.toJson.isFinite = true := by
  rw [Graphic.isFinite_toJson, Bool.and_eq_true]
  exact ⟨isFinite_shape ha, isFinite_style ha⟩

theorem hasSizes_graphic : a.graphic.shape.HasSizes := by
  unfold graphic shape
  cases hkind : a.kind with
  | text => trivial
  | line => trivial
  | rect => exact ⟨(ha.distances hkind).1.2, (ha.distances hkind).2.2⟩

end Annotation

namespace ChartSpec

/-- Every valid specification whose positions are at most `2 ^ 256` in magnitude compiles,
and the sizes of rectangles that are written in percent read back as percentages. If the
cells of the table are of moderate size as well, then all doubles in the result are finite
and none is written as `null`. Nothing is said of the numbers in violins and confidence
intervals, which need exponential functions and logarithms. -/
theorem compile_finite {spec : ChartSpec} (hvalid : spec.violations = [])
    (hannotations : ∀ a ∈ spec.annotations, a.IsModerate) (rows : Table) :
    ∃ config, compile spec rows = .ok config ∧
      (∀ g ∈ config.graphic.getD [], g.shape.HasSizes) ∧
      (rows.IsModerate → spec.chartType ≠ .violin →
        (spec.resolution.isActive .errorBar = true →
          spec.errorBarOrUsual.kind ≠ .confidence) →
        ∀ x ∈ config.toJson.doubles, x.isFinite = true ∧
          (Json.Number.real x).text ≠ "null") := by
  refine ⟨spec.config rows, compile_eq_ok hvalid rows, fun g hg => ?_,
    fun hrows hviolin hconfidence x hx => ?_⟩
  · obtain ⟨bare, hbare, rfl⟩ := mem_graphic_present hg
    rcases List.mem_append.mp hbare with htitle | hannotation
    · obtain ⟨-, -, cell, -, text, rfl⟩ := mem_titles_figure htitle
      trivial
    · obtain ⟨a, ha, rfl⟩ := List.mem_map.mp hannotation
      exact Annotation.hasSizes_graphic (hannotations a ha)
  · have hfigure := isFinite_figure hviolin hrows hconfidence spec.style.theme.palette
    have htitles : ∀ g ∈ (spec.figure spec.resolution spec.style.theme.palette rows).titles,
        ∃ cell text, g = FacetCell.title cell text := by
      intro g hg
      obtain ⟨-, -, cell, -, text, htitle⟩ := mem_titles_figure hg
      exact ⟨cell, text, htitle⟩
    have hconfig := isFinite_present hfigure htitles
      (fun a ha => Annotation.isFinite_graphic (hannotations a ha)) spec.resolution
    have hfinite := List.all_eq_true.mp hconfig x hx
    exact ⟨hfinite, Json.Number.text_ne_null hfinite⟩

/-- Fitted lines in small multiples, with a box and a dashed line over them. -/
def annotatedNumbers : ChartSpec :=
  { crowdedNumbers .scatter with
    annotations := [
      ⟨.rect, some (.expression "10%"), some (.expression "5%"), some (.expression "42.5%"),
        some (.expression "50%"), none, none, none⟩,
      ⟨.line, some (.pixels 0), some (.expression "middle"), some (.pixels 250), none, none,
        none, some (.named "6, 2.5")⟩] }

/-- The line brings doubles of its own: its ends, its width and its dashes. -/
theorem compile_finite_sales :
    annotatedNumbers.violations = [] ∧
      (∀ a ∈ annotatedNumbers.annotations, a.IsModerate) ∧ Table.sales.IsModerate ∧
      ∃ config, compile annotatedNumbers .sales = .ok config ∧
        250 ∈ config.toJson.doubles ∧ 2.5 ∈ config.toJson.doubles ∧
        (∀ g ∈ config.graphic.getD [], g.shape.HasSizes) ∧
        ∀ x ∈ config.toJson.doubles, x.isFinite = true ∧
          (Json.Number.real x).text ≠ "null" := by
  have hvalid : annotatedNumbers.violations = [] := by decide +kernel
  have hannotations : ∀ a ∈ annotatedNumbers.annotations, a.IsModerate := by
    intro a ha
    rcases List.mem_pair.mp ha with rfl | rfl
    · exact ⟨by decide +kernel, by decide +kernel, by decide +kernel⟩
    · exact ⟨by decide +kernel, by decide +kernel, by decide +kernel⟩
  have hrows : Table.sales.IsModerate := ⟨by decide +kernel, by decide⟩
  obtain ⟨config, hcompiled, hsizes, hnumbers⟩ := compile_finite hvalid hannotations .sales
  obtain rfl : annotatedNumbers.config .sales = config :=
    Except.ok.inj ((compile_eq_ok hvalid _).symm.trans hcompiled)
  obtain ⟨_, hend, rfl⟩ : ∃ x ∈ (annotatedNumbers.config .sales).toJson.doubles, x = 250 := by
    decide +kernel
  obtain ⟨_, hdash, rfl⟩ : ∃ x ∈ (annotatedNumbers.config .sales).toJson.doubles, x = 2.5 := by
    decide +kernel
  exact ⟨hvalid, hannotations, hrows, _, hcompiled, hend, hdash, hsizes,
    hnumbers hrows (by decide) (by decide +kernel)⟩

/-- Two sales whose sum is larger than every double: their mean is infinite, and `null`
is written for it as for a region without sales. -/
theorem compile_writes_null :
    (crowded.without Feature.all).violations = [] ∧
      ∃ config, compile (crowded.without Feature.all)
          (.replicate 2 [("region", .string "North"), ("sales", .number (.real 1.7e308))]) =
        .ok config ∧
        ∃ x ∈ config.toJson.doubles, x.isFinite = false ∧ (Json.Number.real x).text = "null" := by
  have hvalid : (crowded.without Feature.all).violations = [] := by decide +kernel
  exact ⟨hvalid, _, compile_eq_ok hvalid _, by decide +kernel⟩

end ChartSpec

end ChartCompiler
