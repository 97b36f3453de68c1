import ChartCompiler.Plot.Overlay
import ChartCompiler.Proofs.SmallMultiples

/-!
# What is laid over a chart

Titles and annotations share one list. The titles of small multiples come first, one for each
part of the table, and then one graphic for each annotation. Neither the chart type nor the
table reaches the graphics of the annotations; of the specification only the style does, by
its font.
-/

namespace ChartCompiler

/-! ## Titles -/

def Graphic.caption (g : Graphic) : AnnotationKind × Option String :=
  (g.shape.kind, g.style.text)

def titleCaption (text : String) : AnnotationKind × Option String :=
  (.text, some text)

theorem FacetCell.map_caption_title {cells : List FacetCell} {texts : List String}
    (hlength : cells.length = texts.length) :
    (cells.zipWith FacetCell.title texts).map Graphic.caption = texts.map titleCaption := by
  apply List.ext_getElem
  · simp [hlength]
  · intro i _ _
    simp only [List.getElem_map, List.getElem_zipWith]
    rfl

/-- If cells have titles, then each is titled with the label of its part. -/
theorem FacetChart.map_caption_titles_build (chartType : ChartType) (encoding : Encoding)
    (facet : Facet) (rows : Table) (horizontal trendline : Bool) :
    (build chartType encoding facet rows horizontal trendline).titles.map Graphic.caption =
      if facet.showTitle then
        (firstSeen some (rows.map (Row.partLabel facet.field))).map titleCaption
      else [] := by
  have hlength : (FacetLayout.of (rows.partition facet.field).length
      facet.columnCount).items.length = (rows.partition facet.field).keys.length := by
    rw [FacetLayout.length_items, Groups.keys, List.length_map]
  rw [← Table.keys_partition, ← FacetCell.map_caption_title hlength]
  unfold build
  dsimp only
  split <;> rfl

/-- Titles are those of cells. -/
theorem FacetChart.mem_titles_build (chartType : ChartType) (encoding : Encoding)
    (facet : Facet) (rows : Table) (horizontal trendline : Bool) {g : Graphic}
    (hg : g ∈ (build chartType encoding facet rows horizontal trendline).titles) :
    ∃ cell ∈ (FacetLayout.of (rows.partition facet.field).length facet.columnCount).items,
      ∃ text, g = cell.title text := by
  change g ∈ (if facet.showTitle then _ else _) at hg
  split_ifs at hg
  · rw [← List.map_uncurry_zip_eq_zipWith] at hg
    obtain ⟨⟨cell, text⟩, hpair, rfl⟩ := List.mem_map.mp hg
    exact ⟨cell, (List.of_mem_zip hpair).1, text, rfl⟩
  · exact nomatch hg

namespace ChartSpec

/-- The texts of the titles: where small multiples are shown, and with titles, the labels of
their parts as they are first seen. -/
def titleTexts (spec : ChartSpec) (rows : Table) : List String :=
  match spec.facet with
  | some facet =>
      if spec.resolution.isActive .facet && facet.showTitle then
        firstSeen some (rows.map (Row.partLabel facet.field))
      else []
  | none => []

/-- Figures other than small multiples have no titles. -/
theorem titles_figure_eq_nil {spec : ChartSpec} {r : Resolution}
    (hfacet : r.isActive .facet = false) (palette : List String) (rows : Table) :
    (spec.figure r palette rows).titles = [] := by
  unfold figure plainFigure
  simp only [hfacet, Bool.false_eq_true, ↓reduceIte]
  split
  · rfl
  · split <;> rfl

/-- Only small multiples have titles. -/
theorem mem_titles_figure {spec : ChartSpec} {r : Resolution} {palette : List String}
    {rows : Table} {g : Graphic} (hg : g ∈ (spec.figure r palette rows).titles) :
    ∃ facet ∈ spec.facet,
      ∃ cell ∈ (FacetLayout.of (rows.partition facet.field).length facet.columnCount).items,
        ∃ text, g = cell.title text := by
  unfold figure at hg
  split at hg
  · exact nomatch hg
  · split at hg
    · next facet hgiven =>
        obtain ⟨-, hgiven⟩ := Option.ite_none_right_eq_some.mp hgiven
        exact ⟨facet, hgiven, FacetChart.mem_titles_build spec.chartType spec.encoding facet rows
          (r.isActive .horizontal) spec.wantsTrendline hg⟩
    · unfold plainFigure at hg
      dsimp only at hg
      split at hg
      · exact nomatch hg
      · exact nomatch hg

theorem map_caption_titles_figure (spec : ChartSpec) (palette : List String) (rows : Table) :
    (spec.figure spec.resolution palette rows).titles.map Graphic.caption =
      (spec.titleTexts rows).map titleCaption := by
  unfold titleTexts
  cases hactive : spec.resolution.isActive .facet with
  | false =>
      rw [titles_figure_eq_nil hactive]
      cases spec.facet <;> rfl
  | true =>
      obtain ⟨facet, hgiven⟩ := exists_facet hactive
      have hcaptions := FacetChart.map_caption_titles_build spec.chartType spec.encoding facet
        rows (spec.resolution.isActive .horizontal) spec.wantsTrendline
      unfold figure
      rw [isActive_errorBar_of_facet hactive, hactive, hgiven]
      refine hcaptions.trans ?_
      simp only [Bool.true_and]
      split <;> rfl

end ChartSpec

/-! ## Annotations -/

/-- The corners that a shape is drawn from. A rectangle has a width and a height in place of the
second. -/
def AnnotationKind.corners : AnnotationKind → List Corner
  | text | rect => [.x, .y]
  | line => Corner.all

/-- The coordinate of a shape at a corner that it is drawn from. -/
def GraphicShape.coord? : GraphicShape → Corner → Option Coord
  | text left _, .x => some left
  | text _ top, .y => some top
  | text .., _ => none
  | line x1 _ _ _, .x => some x1
  | line _ y1 _ _, .y => some y1
  | line _ _ x2 _, .x2 => some x2
  | line _ _ _ y2, .y2 => some y2
  | rect x _ _ _, .x => some x
  | rect _ y _ _, .y => some y
  | rect .., _ => none

/-- The graphic of an annotation is of its kind, and has the coordinates that are given at the
corners it is drawn from. The second corner of a rectangle shows as the distance from the first. -/
structure Annotation.IsDrawnBy (a : Annotation) (g : Graphic) : Prop where
  kind : g.shape.kind = a.kind
  coord : ∀ corner ∈ a.kind.corners, ∀ given, a.coord? corner = some given →
    g.shape.coord? corner = some given
  size : ∀ x y width height, g.shape = .rect x y width height →
    width = Coord.distance a.x a.x2 ∧ height = Coord.distance a.y a.y2

/-- The graphic of a rectangle has the distances of the corners for its size. -/
theorem Annotation.IsDrawnBy.exists_rect {a : Annotation} {g : Graphic} (hg : a.IsDrawnBy g)
    (hrect : a.kind = .rect) :
    ∃ x y, g.shape = .rect x y (Coord.distance a.x a.x2) (Coord.distance a.y a.y2) := by
  have hkind := hg.kind
  rw [hrect] at hkind
  match hshape : g.shape with
  | .text .. | .line .. =>
      rw [hshape] at hkind
      cases hkind
  | .rect x y width height =>
      obtain ⟨rfl, rfl⟩ := hg.size x y width height hshape
      exact ⟨x, y, rfl⟩

namespace Annotation

/-- The shape of an annotation has the coordinates that are given. -/
theorem coord?_shape (a : Annotation) {corner : Corner} (hcorner : corner ∈ a.kind.corners)
    {given : Coord} (hgiven : a.coord? corner = some given) :
    a.shape.coord? corner = some given := by
  unfold shape
  cases hkind : a.kind <;> rw [hkind] at hcorner <;> cases corner <;>
    simp_all [AnnotationKind.corners, coord?, GraphicShape.coord?]

theorem kind_shape (a : Annotation) : a.shape.kind = a.kind := by
  unfold shape
  cases a.kind <;> rfl

/-- Fonts change neither the kind of a graphic nor its place. -/
theorem isDrawnBy_fillFonts (theme : Theme) (a : Annotation) :
    a.IsDrawnBy (a.graphic.fillFonts theme) := by
  refine ⟨a.kind_shape, fun corner hcorner given => a.coord?_shape hcorner, ?_⟩
  intro x y width height hshape
  change a.shape = _ at hshape
  unfold shape at hshape
  cases hkind : a.kind with
  | text | line =>
      rw [hkind] at hshape
      cases hshape
  | rect =>
      rw [hkind] at hshape
      cases hshape
      exact ⟨rfl, rfl⟩

end Annotation

/-! ## Whole configurations -/

/-- A configuration lays over its chart titles with the given texts, and behind them the given
marks, one for each annotation. Without titles and annotations it has no graphics. -/
structure RenderConfig.LaysOver (config : RenderConfig) (texts : List String)
    (annotations : List Annotation) (marks : List Graphic) : Prop where
  absent : config.graphic = none ↔ annotations = [] ∧ texts = []
  parts : ∃ titles, config.graphic.getD [] = titles ++ marks ∧
    titles.map Graphic.caption = texts.map titleCaption
  drawn : List.Forall₂ Annotation.IsDrawnBy annotations marks

namespace ChartSpec

def marks (spec : ChartSpec) : List Graphic :=
  spec.annotations.map fun a => a.graphic.fillFonts spec.style.theme

theorem isDrawnBy_marks (spec : ChartSpec) :
    List.Forall₂ Annotation.IsDrawnBy spec.annotations spec.marks := by
  rw [marks, List.forall₂_map_right_iff]
  exact List.forall₂_same.mpr fun a _ => a.isDrawnBy_fillFonts spec.style.theme

theorem graphic_present (spec : ChartSpec) (r : Resolution) (figure : Figure) :
    (spec.present r figure).graphic =
      let graphics := figure.titles.map (Graphic.fillFonts spec.style.theme) ++ spec.marks
      if graphics = [] then none else some graphics := by
  have hmarks : (figure.titles ++ spec.annotations.map Annotation.graphic).map
      (Graphic.fillFonts spec.style.theme) =
        figure.titles.map (Graphic.fillFonts spec.style.theme) ++ spec.marks := by
    rw [List.map_append, List.map_map]
    rfl
  unfold present RenderConfig.withTheme
  dsimp only
  rw [← hmarks]
  by_cases hnone : figure.titles ++ spec.annotations.map Annotation.graphic = []
  · simp [hnone]
  · have hsome : (figure.titles ++ spec.annotations.map Annotation.graphic).isEmpty = false :=
      List.isEmpty_eq_false_iff.mpr hnone
    rw [if_neg (List.map_eq_nil_iff.not.mpr hnone), hsome]
    rfl

def titles (spec : ChartSpec) (rows : Table) : List Graphic :=
  (spec.figure spec.resolution spec.style.theme.palette rows).titles.map
    (Graphic.fillFonts spec.style.theme)

theorem map_caption_titles (spec : ChartSpec) (rows : Table) :
    (spec.titles rows).map Graphic.caption = (spec.titleTexts rows).map titleCaption := by
  rw [← map_caption_titles_figure spec spec.style.theme.palette rows, titles, List.map_map]
  rfl

theorem graphic_config (spec : ChartSpec) (rows : Table) :
    (spec.config rows).graphic =
      if spec.titles rows ++ spec.marks = [] then none
      else some (spec.titles rows ++ spec.marks) :=
  graphic_present spec spec.resolution _

theorem getD_graphic_config (spec : ChartSpec) (rows : Table) :
    (spec.config rows).graphic.getD [] = spec.titles rows ++ spec.marks := by
  rw [graphic_config]
  split
  · next hnone => exact hnone.symm
  · rfl

theorem laysOver_config (spec : ChartSpec) (rows : Table) :
    (spec.config rows).LaysOver (spec.titleTexts rows) spec.annotations spec.marks := by
  have hcaptions := spec.map_caption_titles rows
  have htitles : spec.titles rows = [] ↔ spec.titleTexts rows = [] := by
    rw [← List.map_eq_nil_iff (f := Graphic.caption), hcaptions, List.map_eq_nil_iff]
  refine ⟨?_, ⟨spec.titles rows, spec.getD_graphic_config rows, hcaptions⟩, spec.isDrawnBy_marks⟩
  rw [graphic_config, ite_eq_left_iff, List.append_eq_nil_iff, htitles, marks,
    List.map_eq_nil_iff]
  simp [and_comm]

/-- For every valid specification and every table, the compiled configuration lays over its
chart the titles of its small multiples, as long as they are shown, and behind them one
graphic for each annotation, in order. These graphics are the same for every valid
specification with these annotations and this style, whatever its chart and its table. -/
theorem compile_laysOver {spec : ChartSpec} (hvalid : spec.violations = []) (rows : Table) :
    ∃ config marks, compile spec rows = .ok config ∧
      config.LaysOver (spec.titleTexts rows) spec.annotations marks ∧
      ∀ other : ChartSpec, ∀ otherRows : Table, other.violations = [] →
        other.annotations = spec.annotations → other.style = spec.style →
        ∃ otherConfig, compile other otherRows = .ok otherConfig ∧
          otherConfig.LaysOver (other.titleTexts otherRows) spec.annotations marks := by
  refine ⟨spec.config rows, spec.marks, compile_eq_ok hvalid rows, laysOver_config spec rows, ?_⟩
  intro other otherRows hother hannotations hstyle
  have hmarks : other.marks = spec.marks := by
    unfold marks
    rw [hannotations, hstyle]
  refine ⟨other.config otherRows, compile_eq_ok hother otherRows, ?_⟩
  rw [← hannotations, ← hmarks]
  exact laysOver_config other otherRows

/-- The crowded chart with a note, a line and a box over it. -/
def noted : ChartSpec :=
  { crowded with
    annotations := [
      ⟨.text, some (.pixels 40), some (.expression "10%"), none, none, some "note", none, none⟩,
      ⟨.line, none, some (.pixels 5), some (.expression "right"), none, none, none, none⟩,
      ⟨.rect, some (.expression "5%"), none, some (.expression "25%"), none, none,
        some "#f00", none⟩] }

/-- With error bars the noted chart has no titles. Without them it has three, and over both lie
the same three graphics. -/
theorem compile_laysOver_noted :
    noted.violations = [] ∧ ∃ config marks, compile noted .sales = .ok config ∧
      config.LaysOver [] noted.annotations marks ∧ marks.length = 3 ∧
      (noted.without [.errorBar]).violations = [] ∧
      ∃ other, compile (noted.without [.errorBar]) .sales = .ok other ∧
        other.LaysOver ["Q1", "Q2", "(empty)"] noted.annotations marks := by
  have hvalid : noted.violations = [] := by decide +kernel
  have hother := violations_without [.errorBar] hvalid
  have hnone : noted.titleTexts .sales = [] := by decide +kernel
  have hthree : (noted.without [.errorBar]).titleTexts .sales = ["Q1", "Q2", "(empty)"] := by
    decide +kernel
  obtain ⟨config, marks, hconfig, hover, hsame⟩ := compile_laysOver hvalid .sales
  obtain ⟨other, hcompiled, hotherOver⟩ := hsame (noted.without [.errorBar]) .sales hother rfl rfl
  rw [hnone] at hover
  rw [hthree] at hotherOver
  exact ⟨hvalid, config, marks, hconfig, hover, hover.drawn.length_eq.symm, hother, other,
    hcompiled, hotherOver⟩

end ChartSpec

end ChartCompiler
