import ChartCompiler.Plot.Area
import Mathlib.Data.List.Induction

/-!
# Plot areas under edits

An area is built upright, and may then be turned, bound to a grid, labelled and given
bounds, in any order and any number of times. `normalForm` says what is left of a whole run
of such edits: whether the area stands turned, whether its series do, and the last value of
each setting. Bounds reach the axis of values wherever it has got to.
-/

namespace ChartCompiler

inductive AreaEdit where
  | turn
  | swapEncodes
  | bindGrid (index : Nat)
  | label (horizontal : Bool)
  | setMin (value : Option Float)
  | setMax (value : Option Float)

namespace AreaEdit

/-- What the edit does to the axes. Bounds are set on the axis that shows values. -/
def onAxes (axes : AxisPair) : AreaEdit → AxisPair
  | turn => axes.swap
  | bindGrid index => axes.bindGrid index
  | setMin value => axes.mapValueAxis fun axis => { axis with min := value }
  | setMax value => axes.mapValueAxis fun axis => { axis with max := value }
  | swapEncodes | label _ => axes

def onSeries (s : Series) : AreaEdit → Series
  | turn | swapEncodes => s.swapEncode
  | label horizontal => s.withLabels horizontal
  | bindGrid _ | setMin _ | setMax _ => s

def apply (area : PlotArea) (edit : AreaEdit) : PlotArea where
  axes := edit.onAxes area.axes
  series := area.series.map edit.onSeries

def turnsAxes : AreaEdit → Bool
  | turn => true
  | _ => false

def turnsSeries : AreaEdit → Bool
  | turn | swapEncodes => true
  | _ => false

def grid? : AreaEdit → Option Nat
  | bindGrid index => some index
  | _ => none

def label? : AreaEdit → Option Label
  | label horizontal => some (Series.dataLabel horizontal)
  | _ => none

def min? : AreaEdit → Option (Option Float)
  | setMin value => some value
  | _ => none

def max? : AreaEdit → Option (Option Float)
  | setMax value => some value
  | _ => none

def isOdd (kind : AreaEdit → Bool) (edits : List AreaEdit) : Bool :=
  edits.countP kind % 2 = 1

def last? {α : Type} (setting : AreaEdit → Option α) (edits : List AreaEdit) : Option α :=
  (edits.filterMap setting).getLast?

theorem isOdd_append_singleton (kind : AreaEdit → Bool) (edits : List AreaEdit)
    (edit : AreaEdit) : isOdd kind (edits ++ [edit]) = (isOdd kind edits ^^ kind edit) := by
  unfold isOdd
  rw [List.countP_append, List.countP_singleton]
  cases kind edit with
  | false => simp
  | true =>
      rw [if_pos rfl, Bool.xor_true, ← decide_not, decide_eq_decide]
      omega

theorem last?_append_singleton {α : Type} (setting : AreaEdit → Option α)
    (edits : List AreaEdit) (edit : AreaEdit) :
    last? setting (edits ++ [edit]) = (setting edit).or (last? setting edits) := by
  unfold last?
  rw [List.filterMap_append]
  cases hset : setting edit with
  | none => simp [hset]
  | some value => simp [hset]

end AreaEdit

open AreaEdit (isOdd last? isOdd_append_singleton last?_append_singleton)

/-- The axes with the categories on the side that they stand on. -/
def AxisPair.sides (turned : Bool) (categories values : Axis) : AxisPair :=
  if turned then ⟨values, categories⟩ else ⟨categories, values⟩

namespace AxisPair

theorem swap_sides (turned : Bool) (categories values : Axis) :
    (sides turned categories values).swap = sides (!turned) categories values := by
  cases turned <;> rfl

theorem bindGrid_sides (index : Nat) (turned : Bool) (categories values : Axis) :
    (sides turned categories values).bindGrid index =
      sides turned { categories with gridIndex := some index }
        { values with gridIndex := some index } := by
  cases turned <;> rfl

/-- The axis of values is found on whichever side it stands. -/
theorem mapValueAxis_sides {categories values : Axis} (hcategories : categories.isCategory = true)
    (hvalues : values.isCategory = false) (f : Axis → Axis) (turned : Bool) :
    (sides turned categories values).mapValueAxis f = sides turned categories (f values) := by
  cases turned with
  | false => exact if_pos hcategories
  | true => exact if_neg (ne_true_of_eq_false hvalues)

end AxisPair

/-- An axis of categories after the edits: they only bind it to a grid. -/
def Axis.categoriesAfter (edits : List AreaEdit) (axis : Axis) : Axis :=
  { axis with gridIndex := (last? AreaEdit.grid? edits).or axis.gridIndex }

/-- An axis of values after the edits: its grid and its bounds are the last that were set. -/
def Axis.valuesAfter (edits : List AreaEdit) (axis : Axis) : Axis :=
  { axis with
    gridIndex := (last? AreaEdit.grid? edits).or axis.gridIndex
    min := (last? AreaEdit.min? edits).getD axis.min
    max := (last? AreaEdit.max? edits).getD axis.max }

/-- A series after the edits: its label is the last that was set. -/
def Series.after (edits : List AreaEdit) (s : Series) : Series :=
  { s with
    encode := if isOdd AreaEdit.turnsSeries edits then s.encode.swap else s.encode
    label := (last? AreaEdit.label? edits).or s.label }

theorem Series.after_append_singleton (edits : List AreaEdit) (edit : AreaEdit) (s : Series) :
    s.after (edits ++ [edit]) = edit.onSeries (s.after edits) := by
  simp only [after, isOdd_append_singleton, last?_append_singleton]
  cases edit with
  | turn | swapEncodes => cases isOdd AreaEdit.turnsSeries edits <;> rfl
  | bindGrid | label | setMin | setMax => cases isOdd AreaEdit.turnsSeries edits <;> rfl

namespace PlotArea

def edited (edits : List AreaEdit) (area : PlotArea) : PlotArea :=
  edits.foldl (fun area edit => edit.apply area) area

/-- What is left of the edits of an upright area. -/
def normalForm (edits : List AreaEdit) (area : PlotArea) : PlotArea where
  axes := .sides (isOdd AreaEdit.turnsAxes edits)
    (area.axes.x.categoriesAfter edits) (area.axes.y.valuesAfter edits)
  series := area.series.map (Series.after edits)

theorem edited_append_singleton (edits : List AreaEdit) (edit : AreaEdit) (area : PlotArea) :
    area.edited (edits ++ [edit]) = edit.apply (area.edited edits) := by
  simp [edited]

theorem normalForm_nil (area : PlotArea) : area.normalForm [] = area := by
  have hseries : area.series.map (Series.after []) = area.series := List.map_id _
  rw [normalForm, hseries]
  rfl

section Upright

variable {area : PlotArea} (hx : area.axes.x.isCategory = true)
  (hy : area.axes.y.isCategory = false)
include hx hy

/-- One more edit acts on the axes of the normal form as on any others. -/
theorem axes_normalForm_append_singleton (edits : List AreaEdit) (edit : AreaEdit) :
    (area.normalForm (edits ++ [edit])).axes = edit.onAxes (area.normalForm edits).axes := by
  have hcategories : (area.axes.x.categoriesAfter edits).isCategory = true := hx
  have hvalues : (area.axes.y.valuesAfter edits).isCategory = false := hy
  have hmap := fun f => AxisPair.mapValueAxis_sides hcategories hvalues f
  simp only [normalForm, isOdd_append_singleton]
  generalize isOdd AreaEdit.turnsAxes edits = turned
  cases edit with
  | turn =>
      rw [AreaEdit.onAxes, AxisPair.swap_sides, Axis.categoriesAfter, Axis.valuesAfter]
      simp only [last?_append_singleton]
      cases turned <;> rfl
  | bindGrid index =>
      rw [AreaEdit.onAxes, AxisPair.bindGrid_sides, Axis.categoriesAfter, Axis.valuesAfter]
      simp only [last?_append_singleton]
      cases turned <;> rfl
  | setMin value | setMax value =>
      rw [AreaEdit.onAxes, hmap, Axis.categoriesAfter, Axis.valuesAfter]
      simp only [last?_append_singleton]
      cases turned <;> rfl
  | swapEncodes | label =>
      rw [AreaEdit.onAxes, Axis.categoriesAfter, Axis.valuesAfter]
      simp only [last?_append_singleton]
      cases turned <;> rfl

omit hx hy in
theorem series_normalForm_append_singleton (edits : List AreaEdit) (edit : AreaEdit) :
    (area.normalForm (edits ++ [edit])).series =
      (area.normalForm edits).series.map edit.onSeries := by
  simp only [normalForm, List.map_map]
  exact List.map_congr_left fun s _ => Series.after_append_singleton edits edit s

/-- A run of edits leaves the normal form. -/
theorem edited_eq_normalForm (edits : List AreaEdit) :
    area.edited edits = area.normalForm edits := by
  induction edits using List.reverseRecOn with
  | nil => exact (normalForm_nil area).symm
  | append_singleton edits edit ih =>
      rw [edited_append_singleton, ih, AreaEdit.apply,
        ← axes_normalForm_append_singleton hx hy, ← series_normalForm_append_singleton]

end Upright

end PlotArea

/-- The axis shows the given categories, and has no bounds. -/
structure Axis.Lists (axis : Axis) (items : List String) : Prop where
  isCategory : axis.isCategory = true
  data : axis.data = some items
  min : axis.min = none
  max : axis.max = none

/-- The axis shows values, and has no categories. -/
structure Axis.Measures (axis : Axis) : Prop where
  isCategory : axis.isCategory = false
  data : axis.data = none

theorem Axis.Lists.after {axis : Axis} {items : List String} (h : axis.Lists items)
    (edits : List AreaEdit) : (axis.categoriesAfter edits).Lists items :=
  ⟨h.isCategory, h.data, h.min, h.max⟩

theorem Axis.Measures.after {axis : Axis} (h : axis.Measures) (edits : List AreaEdit) :
    (axis.valuesAfter edits).Measures :=
  ⟨h.isCategory, h.data⟩

namespace PlotArea

theorem lists_upright {set : SeriesSet} {items : List String}
    (hcategories : set.categories = some items) (chartType : ChartType) (encoding : Encoding) :
    (upright chartType encoding set).axes.x.Lists items := by
  unfold upright AxisPair.upright
  rw [hcategories]
  exact ⟨rfl, rfl, rfl, rfl⟩

theorem measures_upright (chartType : ChartType) (encoding : Encoding) (set : SeriesSet) :
    (upright chartType encoding set).axes.y.Measures := by
  unfold upright AxisPair.upright
  cases chartType <;> exact ⟨rfl, rfl⟩

/-- Where a set of series over categories is drawn upright and then edited, every part is as at
the start or as its last edit left it. One axis keeps the categories and stays without bounds.
Its side, and the side of each series' dimensions, is a matter of the number of turns alone. -/
theorem edited_upright {set : SeriesSet} {items : List String}
    (hcategories : set.categories = some items) (chartType : ChartType) (encoding : Encoding)
    (edits : List AreaEdit) :
    let start := upright chartType encoding set
    let final := start.edited edits
    let turned := isOdd AreaEdit.turnsAxes edits
    final.axes = .sides turned (start.axes.x.categoriesAfter edits)
        (start.axes.y.valuesAfter edits) ∧
      final.series = set.series.map (Series.after edits) ∧
      (if turned then final.axes.y else final.axes.x).Lists items ∧
      (if turned then final.axes.x else final.axes.y).Measures := by
  have hlists := lists_upright hcategories chartType encoding
  have hmeasures := measures_upright chartType encoding set
  intro start final turned
  have hfinal : final = start.normalForm edits :=
    edited_eq_normalForm hlists.isCategory hmeasures.isCategory edits
  have haxes : final.axes = .sides turned (start.axes.x.categoriesAfter edits)
      (start.axes.y.valuesAfter edits) := by rw [hfinal]; rfl
  refine ⟨haxes, by rw [hfinal]; rfl, ?_, ?_⟩
  · rw [haxes]
    cases turned <;> exact hlists.after edits
  · rw [haxes]
    cases turned <;> exact hmeasures.after edits

def regions : SeriesSet where
  categories := some ["North", "South"]
  series := [.plain .bar "Sales" ["region", "sales"] (.pair "region" "sales") []]
  extent := none

def salesByRegion : Encoding where
  x := ⟨"region", .nominal, none⟩
  y := ⟨"sales", .quantitative, some "Sales"⟩
  y2 := none
  color := none

/-- Edits with bounds set in upright and in turned position. -/
def mixedEdits : List AreaEdit :=
  [.setMin (some 1), .turn, .setMin (some 2), .bindGrid 3, .label false, .turn,
    .setMax (some 4), .swapEncodes, .turn, .label true]

theorem edited_upright_regions :
    regions.categories = some ["North", "South"] ∧
      ((upright .bar salesByRegion regions).edited mixedEdits).axes.y.Lists ["North", "South"] ∧
      ((upright .bar salesByRegion regions).edited mixedEdits).axes.x =
        { Axis.values "Sales" with gridIndex := some 3, min := some 2, max := some 4 } ∧
      ((upright .bar salesByRegion regions).edited mixedEdits).series =
        [{ Series.plain .bar "Sales" ["region", "sales"] (.pair "region" "sales") [] with
          label := some (Series.dataLabel true) }] := by
  have hcategories : regions.categories = some ["North", "South"] := rfl
  obtain ⟨haxes, hseries, hlists, -⟩ := edited_upright hcategories .bar salesByRegion mixedEdits
  refine ⟨hcategories, hlists, ?_, ?_⟩
  · rw [haxes]
    rfl
  · rw [hseries]
    rfl

end PlotArea

end ChartCompiler
