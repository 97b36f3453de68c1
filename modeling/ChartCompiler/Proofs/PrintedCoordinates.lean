import ChartCompiler.Proofs.Double.Mixing
import ChartCompiler.Proofs.Double.Signs
import ChartCompiler.Proofs.FacetBoxes
import ChartCompiler.Proofs.Overlays
import ChartCompiler.Proofs.Repairs

/-!
# Coordinates that are printed

The places of titles and the sizes of rectangles are computed and then printed as percentages. What
is read from such a text need not be the number that was printed, but it is printed as the same
text: of all doubles the one that is read is nearest to the number in the text, and so it is rounded
to that number again, with the same sign.
-/

namespace ChartCompiler

open Double

/-! ## Numbers that are read from what was shown -/

namespace Decimal

variable {places : ℕ} {x y : Float}

/-- Whole numbers bound a double and what it shows alike. -/
theorem abs_shown_le {n : ℕ} (hx : |real x| ≤ n) : |(shown places x : ℝ)| ≤ n := by
  have hpos : (0 : ℝ) < 10 ^ places := by positivity
  obtain ⟨hlow, hhigh⟩ := abs_le.mp hx
  have hbelow := halfEven_mono (mul_le_mul_of_nonneg_right hlow hpos.le)
  have habove := halfEven_mono (mul_le_mul_of_nonneg_right hhigh hpos.le)
  have hwhole : (n : ℝ) * 10 ^ places = (n * 10 ^ places : ℤ) := by
    push_cast
    rfl
  rw [neg_mul, halfEven_neg, hwhole, halfEven_intCast] at hbelow
  rw [hwhole, halfEven_intCast] at habove
  rw [shown, abs_le]
  push_cast
  rw [le_div_iff₀ hpos, div_le_iff₀ hpos, neg_mul]
  exact_mod_cast And.intro hbelow habove

theorem isFinite_of_rounds_shown (hx : x.isFinite = true) (hy : Rounds y (shown places x)) :
    y.isFinite = true := by
  obtain ⟨n, hn, hdouble, hlimit⟩ := exists_natCast_isDouble (isDouble_real hx) (abs_real_lt hx)
  exact (hy.bounded hdouble hlimit (abs_shown_le hn)).1

/-- What is read is shown as it was. -/
theorem halfEven_of_rounds_shown (hx : x.isFinite = true) (hy : Rounds y (shown places x)) :
    halfEven (real y * 10 ^ places) = halfEven (real x * 10 ^ places) := by
  have hscale : (0 : ℝ) < 10 ^ places := by positivity
  rw [hy.real_of_isFinite (isFinite_of_rounds_shown hx hy)]
  have hround := halfEven_nearest_mul (isDouble_real hx) hscale
  rw [shown]
  push_cast
  exact hround

theorem fixed_of_rounds_shown (hx : x.isFinite = true) (hy : Rounds y (shown places x))
    (hsign : isSigned y = isSigned x) : fixed places y = fixed places x := by
  obtain ⟨n, htext, hn⟩ := fixed_of_isFinite places hx
  obtain ⟨m, htext', hm⟩ := fixed_of_isFinite places (isFinite_of_rounds_shown hx hy)
  rw [halfEven_of_rounds_shown hx hy, hsign, ← hn] at hm
  have hdigits : m = n := by
    split_ifs at hm
    · exact_mod_cast neg_inj.mp hm
    · exact_mod_cast hm
  rw [htext, htext', hsign, hdigits]

end Decimal

/-- The coordinate reads as a percentage that is printed as this coordinate. -/
def Coord.ReadsBack (c : Coord) : Prop :=
  ∃ w, c.position? = some (.percent w) ∧ c = .expression (percentText w)

theorem Coord.readsBack_percentText {x : Float} (hx : x.isFinite = true) :
    ReadsBack (.expression (percentText x)) := by
  obtain ⟨numeral, hscan, hsign, hnumber⟩ := scan_percentText hx
  have hrounds := numeral.rounds_value
  rw [hnumber, shownPercent_eq_shown] at hrounds
  refine ⟨numeral.value, position?_of_scan hscan, congrArg expression ?_⟩
  rw [percentText, percentText, Decimal.fixed_of_rounds_shown hx hrounds]
  rw [numeral.isSigned_value, hsign]

/-! ## Titles -/

/-- The places of titles are finite numbers. -/
theorem FacetLayout.isFinite_titlePlace {n : ℕ} {wanted : Option ℕ} (hn : n < 2 ^ 64)
    (hwanted : ∀ c ∈ wanted, c < 2 ^ 64) {cell : FacetCell} (hcell : cell ∈ (of n wanted).items) :
    (cell.left + cell.width / 2).isFinite = true ∧
      (cell.top + FacetCell.padding / 2).isFinite = true := by
  obtain ⟨hindex, hleft, htop, hwidth, -⟩ := mem_items hcell
  obtain ⟨hcols, hcolumns, hrows, hrow⟩ := counts (Nat.zero_lt_of_lt hindex) hn hwanted
  have hcolumn := FacetCell.cut_cell (Nat.mod_lt cell.index hcols) hcolumns
  have hline := FacetCell.cut_cell (hrow cell.index hindex) hrows
  have htwo : 1 ≤ 2 ^ 0 * |real FacetCell.padding| := by
    rw [FacetCell.near_padding.real_eq]
    norm_num
  have hpadding : Bounded FacetCell.padding 71 :=
    (FacetCell.near_padding.bounded (a := 1) le_rfl).mono (by norm_num)
  have hhalf := hcolumn.size_bounded.div FacetCell.near_padding.isFinite htwo (by norm_num)
  have hone := hpadding.div FacetCell.near_padding.isFinite htwo (by norm_num)
  rw [hleft, htop, hwidth]
  exact ⟨(hcolumn.start_bounded.add hhalf (by norm_num)).isFinite,
    (hline.start_bounded.add hone (by norm_num)).isFinite⟩

/-- The graphic is a text at a place that reads back. -/
def Graphic.PlaceReadsBack (g : Graphic) : Prop :=
  ∃ left top, g.shape = .text left top ∧ left.ReadsBack ∧ top.ReadsBack

theorem FacetCell.placeReadsBack_title {cell : FacetCell} {text : String} {theme : Theme}
    (hleft : (cell.left + cell.width / 2).isFinite = true)
    (htop : (cell.top + padding / 2).isFinite = true) :
    ((cell.title text).fillFonts theme).PlaceReadsBack :=
  ⟨_, _, rfl, Coord.readsBack_percentText hleft, Coord.readsBack_percentText htop⟩

/-! ## Rectangles -/

/-- If both ends of a side are percentages and their difference is finite, then the size of the side
is printed as that difference, and it reads back. -/
def Coord.SizeReadsBack (start stop : Option Coord) (size : Coord) : Prop :=
  ∀ u v, start.bind position? = some (.percent u) → stop.bind position? = some (.percent v) →
    (v - u).isFinite = true → size = .expression (percentText (v - u)) ∧ size.ReadsBack

theorem Coord.sizeReadsBack_distance (start stop : Option Coord) :
    SizeReadsBack start stop (distance start stop) := by
  intro u v hstart hstop hfinite
  have hsize : distance start stop = .expression (percentText (v - u)) := by
    unfold distance
    rw [hstart, hstop]
  rw [hsize]
  exact ⟨rfl, readsBack_percentText hfinite⟩

def Annotation.SizesReadBack (a : Annotation) (g : Graphic) : Prop :=
  a.kind = .rect → ∃ x y width height, g.shape = .rect x y width height ∧
    Coord.SizeReadsBack a.x a.x2 width ∧ Coord.SizeReadsBack a.y a.y2 height

theorem Annotation.IsDrawnBy.sizesReadBack {a : Annotation} {g : Graphic} (hg : a.IsDrawnBy g) :
    a.SizesReadBack g := by
  intro hrect
  obtain ⟨x, y, hshape⟩ := hg.exists_rect hrect
  exact ⟨x, y, _, _, hshape, Coord.sizeReadsBack_distance _ _, Coord.sizeReadsBack_distance _ _⟩

/-! ## Whole configurations -/

namespace ChartSpec

theorem placeReadsBack_of_mem_titles {spec : ChartSpec} (hspec : spec.InOrder) {rows : Table}
    (hrows : rows.length < 2 ^ 64) {g : Graphic} (hg : g ∈ spec.titles rows) :
    g.PlaceReadsBack := by
  obtain ⟨bare, hbare, rfl⟩ := List.mem_map.mp hg
  obtain ⟨facet, hfacet, cell, hcell, text, rfl⟩ := mem_titles_figure hbare
  have hparts := (rows.length_partition_le facet.field).trans_lt hrows
  have hwanted : ∀ c ∈ facet.columnCount, c < 2 ^ 64 := by
    intro c hc
    have hfew := (hspec.facetColumns facet hfacet c hc).2
    omega
  obtain ⟨hleft, htop⟩ := FacetLayout.isFinite_titlePlace hparts hwanted hcell
  exact FacetCell.placeReadsBack_title hleft htop

/-- Every finite number is printed as a percentage that reads back, and so is every percentage that
is compiled from a valid specification and a table whose rows a machine word counts: the places of
the titles of small multiples, and the sizes of rectangles as far as the differences are finite. -/
theorem percentages_print_again :
    (∀ x : Float, x.isFinite = true → (Coord.expression (percentText x)).ReadsBack) ∧
      ∀ spec : ChartSpec, spec.violations = [] → ∀ rows : Table, rows.length < 2 ^ 64 →
        ∃ config titles marks, compile spec rows = .ok config ∧
          config.graphic.getD [] = titles ++ marks ∧
          titles.map Graphic.caption = (spec.titleTexts rows).map titleCaption ∧
          (∀ title ∈ titles, title.PlaceReadsBack) ∧
          List.Forall₂ Annotation.SizesReadBack spec.annotations marks := by
  refine ⟨fun x => Coord.readsBack_percentText, fun spec hvalid rows hrows => ?_⟩
  have hspec := (violations_eq_nil_iff_inOrder spec).mp hvalid
  refine ⟨spec.config rows, spec.titles rows, spec.marks, compile_eq_ok hvalid rows,
    spec.getD_graphic_config rows, spec.map_caption_titles rows,
    fun title => placeReadsBack_of_mem_titles hspec hrows, ?_⟩
  exact spec.isDrawnBy_marks.imp fun _ _ hg => hg.sizesReadBack

/-- A small negative number is printed as a zero with a sign and reads back as one. So do the
places of the three titles of the noted chart without its error bars, and the width of its box. -/
theorem percentages_print_again_noted :
    Float.isFinite (-0.001) = true ∧ (Coord.expression "-0%").ReadsBack ∧
      (noted.without [.errorBar]).violations = [] ∧ Table.sales.length < 2 ^ 64 ∧
      ∃ config titles marks, compile (noted.without [.errorBar]) .sales = .ok config ∧
        config.graphic.getD [] = titles ++ marks ∧
        titles.map Graphic.caption = ["Q1", "Q2", "(empty)"].map titleCaption ∧
        (∀ title ∈ titles, title.PlaceReadsBack) ∧
        List.Forall₂ Annotation.SizesReadBack noted.annotations marks := by
  obtain ⟨hnumbers, hcompiled⟩ := percentages_print_again
  have hfinite : Float.isFinite (-0.001) = true := by decide +kernel
  have htext : percentText (-0.001) = "-0%" := by decide +kernel
  have hvalid : noted.violations = [] := by decide +kernel
  have hother := violations_without [.errorBar] hvalid
  have hrows : Table.sales.length < 2 ^ 64 := by decide +kernel
  have htitles : (noted.without [.errorBar]).titleTexts .sales = ["Q1", "Q2", "(empty)"] := by
    decide +kernel
  have hgraphics := hcompiled (noted.without [.errorBar]) hother .sales hrows
  rw [htitles] at hgraphics
  exact ⟨hfinite, htext ▸ hnumbers _ hfinite, hother, hrows, hgraphics⟩

end ChartSpec

end ChartCompiler
