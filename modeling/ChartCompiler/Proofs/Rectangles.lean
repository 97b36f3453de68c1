import ChartCompiler.Proofs.Overlays
import ChartCompiler.Proofs.Repairs

/-!
# The sizes of rectangles

A specification is checked before its rectangles are measured, and each reads the coordinates for
itself. For a valid specification they agree: where both ends of a side are given they share a
unit, and the size is their difference in that unit. Only a side without one of its ends has none.
-/

namespace ChartCompiler

/-- The size of a side between two ends. If both are given they are in one unit, and so is the
size. There is no such size between a number of pixels and a percentage, nor to a keyword. -/
inductive Coord.Spans : Option Coord → Option Coord → Coord → Prop
  | pixels {start stop : Coord} {a b : Float} (hstart : start.position? = some (.pixels a))
      (hstop : stop.position? = some (.pixels b)) :
      Spans (some start) (some stop) (.pixels (b - a))
  | percent {start stop : Coord} {a b : Float} (hstart : start.position? = some (.percent a))
      (hstop : stop.position? = some (.percent b)) :
      Spans (some start) (some stop) (.expression (percentText (b - a)))
  | withoutStart (stop : Option Coord) : Spans none stop (.pixels 0)
  | withoutStop (start : Option Coord) : Spans start none (.pixels 0)

/-- Only the two ends decide the size of a side. -/
theorem Coord.Spans.eq_distance {start stop : Option Coord} {size : Coord}
    (hsize : Spans start stop size) : size = distance start stop := by
  cases hsize with
  | pixels hstart hstop | percent hstart hstop =>
      simp only [distance, Option.bind_some, hstart, hstop]
  | withoutStart => rfl
  | withoutStop =>
      unfold distance
      rw [Option.bind_none]
      split <;> first | rfl | contradiction

namespace Annotation

/-- If a graphic is drawn for a rectangle, then it is one whose sides go from the first corner
to the second. -/
def IsMeasuredBy (a : Annotation) (g : Graphic) : Prop :=
  a.kind = .rect → ∃ x y width height, g.shape = .rect x y width height ∧
    Coord.Spans a.x a.x2 width ∧ Coord.Spans a.y a.y2 height

/-- What is checked for all four coordinates holds for every two of them. -/
theorem InOrder.spans {a : Annotation} (ha : a.InOrder) (hrect : a.kind = .rect)
    (start stop : Corner) :
    Coord.Spans (a.coord? start) (a.coord? stop)
      (Coord.distance (a.coord? start) (a.coord? stop)) := by
  cases hstart : a.coord? start with
  | none => exact .withoutStart _
  | some first =>
      cases hstop : a.coord? stop with
      | none =>
          have hnone := Coord.Spans.withoutStop (some first)
          rwa [hnone.eq_distance] at hnone
      | some second =>
          obtain ⟨p, hp⟩ := ha.coordinates start first hstart
          obtain ⟨q, hq⟩ := ha.coordinates stop second hstop
          have hfirst : a.position? start = some p := by rw [position?, hstart, ← hp]; rfl
          have hsecond : a.position? stop = some q := by rw [position?, hstop, ← hq]; rfl
          -- Keywords and two units were refused, and so only one unit is left.
          match p, q with
          | .keyword k, _ => exact absurd hfirst (ha.noKeyword hrect start k)
          | _, .keyword k => exact absurd hsecond (ha.noKeyword hrect stop k)
          | .pixels u, .percent v =>
              exact absurd ⟨⟨start, u, hfirst⟩, stop, v, hsecond⟩ (ha.oneUnit hrect)
          | .percent u, .pixels v =>
              exact absurd ⟨⟨stop, v, hsecond⟩, start, u, hfirst⟩ (ha.oneUnit hrect)
          | .pixels u, .pixels v =>
              have hpixels := Coord.Spans.pixels hp hq
              rwa [hpixels.eq_distance] at hpixels
          | .percent u, .percent v =>
              have hpercent := Coord.Spans.percent hp hq
              rwa [hpercent.eq_distance] at hpercent

theorem InOrder.isMeasuredBy {a : Annotation} (ha : a.InOrder) {g : Graphic}
    (hg : a.IsDrawnBy g) : a.IsMeasuredBy g := by
  intro hrect
  obtain ⟨x, y, hshape⟩ := hg.exists_rect hrect
  exact ⟨x, y, _, _, hshape, ha.spans hrect .x .x2, ha.spans hrect .y .y2⟩

end Annotation

namespace ChartSpec

/-- For every valid specification and every table, the configuration is compiled and holds behind
its titles one graphic for each annotation. Those of rectangles have sides between the given
coordinates: if both ends of a side are given they are both pixels or both percentages and the
size is the difference, and if one is absent the size is zero pixels. -/
theorem compile_measuresRectangles {spec : ChartSpec} (hvalid : spec.violations = [])
    (rows : Table) :
    ∃ config titles marks, compile spec rows = .ok config ∧
      config.graphic.getD [] = titles ++ marks ∧
      titles.map Graphic.caption = (spec.titleTexts rows).map titleCaption ∧
      List.Forall₂ Annotation.IsMeasuredBy spec.annotations marks := by
  have hspec := (violations_eq_nil_iff_inOrder spec).mp hvalid
  refine ⟨spec.config rows, spec.titles rows, spec.marks, compile_eq_ok hvalid rows,
    spec.getD_graphic_config rows, spec.map_caption_titles rows, ?_⟩
  rw [marks, List.forall₂_map_right_iff]
  refine List.forall₂_same.mpr fun a ha => ?_
  exact (hspec.annotations a ha).isMeasuredBy (a.isDrawnBy_fillFonts spec.style.theme)

/-- The crowded chart with boxes over it: from a number of pixels to a text of such a number,
between percentages, and with an end of each side left out. -/
def boxed : ChartSpec :=
  { crowded with
    annotations := [
      ⟨.rect, some (.pixels 40), some (.expression "7.5"), some (.expression " 100 "),
        some (.pixels 5), none, none, none⟩,
      ⟨.rect, some (.expression "5%"), some (.expression "10%"), some (.expression "25%"),
        some (.expression "7.5 %"), none, none, none⟩,
      ⟨.rect, none, some (.expression "50%"), some (.expression "25%"), none, none, none, none⟩] }

/-- How wide and how high a drawn rectangle is. -/
def drawnSides? (g : Graphic) : Option (String × String) :=
  match g.shape with
  | .rect _ _ width height => some (width.text, height.text)
  | _ => none

theorem compile_measuresRectangles_boxed :
    boxed.violations = [] ∧ ∃ config titles marks, compile boxed .sales = .ok config ∧
      config.graphic.getD [] = titles ++ marks ∧
      titles.map Graphic.caption = (boxed.titleTexts .sales).map titleCaption ∧
      List.Forall₂ Annotation.IsMeasuredBy boxed.annotations marks ∧
      (titles ++ marks).filterMap drawnSides? =
        [("60", "-2.5"), ("20%", "-2.5%"), ("0", "0")] := by
  have hvalid : boxed.violations = [] := by decide +kernel
  obtain ⟨config, titles, marks, hcompile, hgraphic, hcaptions, hmeasured⟩ :=
    compile_measuresRectangles hvalid .sales
  have hsides : (compile boxed .sales).toOption.map
      (fun config => (config.graphic.getD []).filterMap drawnSides?) =
        some [("60", "-2.5"), ("20%", "-2.5%"), ("0", "0")] := by
    decide +kernel
  rw [hcompile] at hsides
  have hdrawn : (config.graphic.getD []).filterMap drawnSides? = _ := Option.some.inj hsides
  rw [hgraphic] at hdrawn
  exact ⟨hvalid, config, titles, marks, hcompile, hgraphic, hcaptions, hmeasured, hdrawn⟩

end ChartSpec

end ChartCompiler
