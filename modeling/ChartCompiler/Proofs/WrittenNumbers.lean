import ChartCompiler.Config.Typography
import ChartCompiler.Config.Writer
import ChartCompiler.Proofs.Percentages

/-!
# Numbers in what is written

A double that is not finite is written as `null`, as a gap in the data is. `Json.isFinite`
decides whether a value is free of such doubles. For each record of a configuration there
is an equation that lists the fields on which this depends.
-/

namespace ChartCompiler

open Double

namespace Json

mutual

def doubles : Json → List Float
  | .null | .bool _ | .string _ | .number (.integer _) => []
  | .number (.real x) => [x]
  | .array items => itemDoubles items
  | .object members => memberDoubles members

def itemDoubles : List Json → List Float
  | [] => []
  | item :: rest => item.doubles ++ itemDoubles rest

def memberDoubles : List (String × Json) → List Float
  | [] => []
  | (_, value) :: rest => value.doubles ++ memberDoubles rest

end

def isFinite (value : Json) : Bool :=
  value.doubles.all Float.isFinite

@[simp]
theorem isFinite_null : isFinite .null = true := rfl

@[simp]
theorem isFinite_bool (b : Bool) : isFinite (.bool b) = true := rfl

@[simp]
theorem isFinite_string (s : String) : isFinite (.string s) = true := rfl

@[simp]
theorem isFinite_nat (n : Nat) : isFinite (.nat n) = true := rfl

@[simp]
theorem isFinite_float (x : Float) : isFinite (.float x) = x.isFinite :=
  Bool.and_true _

@[simp]
theorem isFinite_array (items : List Json) : isFinite (.array items) = items.all isFinite := by
  rw [isFinite, doubles]
  induction items with
  | nil => rfl
  | cons item rest ih => rw [itemDoubles, List.all_append, ih, List.all_cons, isFinite]

@[simp]
theorem isFinite_object (members : List (String × Json)) :
    isFinite (.object members) = members.all fun member => member.2.isFinite := by
  rw [isFinite, doubles]
  induction members with
  | nil => rfl
  | cons member rest ih => rw [memberDoubles, List.all_append, ih, List.all_cons, isFinite]

@[simp]
theorem isFinite_strings (items : List String) : isFinite (.strings items) = true := by
  simp [strings]

/-- Of a member that may be left out only a given value counts. -/
@[simp]
theorem all_given {α : Type} (name : String) (write : α → Json) (value : Option α) :
    (given name write value).all (fun member => member.2.isFinite) =
      value.all fun x => (write x).isFinite := by
  cases value with
  | none => rfl
  | some x => exact Bool.and_true _

end Json

/-! ## Text -/

namespace Decimal

theorem exists_digit_repr (n : Nat) :
    ∃ c rest, (Nat.repr n).toList = c :: rest ∧ c.isDigit = true := by
  have htext : (Nat.repr n).toList = Nat.toDigits 10 n := by
    rw [Nat.repr_eq_ofList_toDigits, String.toList_ofList]
  have hne : Nat.toDigits 10 n ≠ [] := List.length_pos_iff.mp Nat.length_toDigits_pos
  obtain ⟨c, rest, hdigits⟩ := List.exists_cons_of_ne_nil hne
  refine ⟨c, rest, htext.trans hdigits, ?_⟩
  apply Nat.isDigit_of_mem_toDigits (b := 10) (n := n) (by norm_num) le_rfl
  rw [hdigits]
  exact List.mem_cons_self

theorem exists_digit_positional (pointZero : Bool) {c : Char} (hdigit : c.isDigit = true)
    (rest : List Char) (exponent : Int) :
    ∃ d more, positional pointZero (c :: rest) exponent = d :: more ∧ d.isDigit = true := by
  unfold positional
  dsimp only
  split_ifs with hwhole hpointZero hpoint
  · exact ⟨c, _, rfl, hdigit⟩
  · exact ⟨c, _, rfl, hdigit⟩
  · obtain ⟨k, hk⟩ := Int.eq_succ_of_zero_lt hpoint
    rw [hk]
    exact ⟨c, _, rfl, hdigit⟩
  · exact ⟨'0', _, rfl, by decide⟩

/-- Every layout starts numbers with a digit, signs aside. -/
theorem exists_digit_magnitude (layout : Layout) (d : Decimal) :
    ∃ c rest, layout.magnitude d = c :: rest ∧ c.isDigit = true := by
  obtain ⟨c, rest, hdigits, hdigit⟩ := exists_digit_repr d.digits
  unfold Layout.magnitude
  rw [hdigits]
  dsimp only
  split_ifs
  · exact exists_digit_positional _ hdigit rest _
  · cases rest with
    | nil => exact ⟨c, _, rfl, hdigit⟩
    | cons second rest => exact ⟨c, _, rfl, hdigit⟩

end Decimal

/-- Finite doubles are never written as `null`. -/
theorem Json.Number.text_ne_null {x : Float} (hx : x.isFinite = true) :
    (Number.real x).text ≠ "null" := by
  obtain ⟨d, hd, -⟩ := Dyadic.ofFloat?_of_isFinite hx
  obtain ⟨c, rest, hmagnitude, hdigit⟩ := Decimal.exists_digit_magnitude numberLayout
    (.shortest numberLayout.tie d.significand d.exponent)
  rw [Number.text, Decimal.Layout.write, hd]
  dsimp only
  rw [hmagnitude]
  intro hnull
  have hchars := congrArg String.toList hnull
  rw [String.toList_ofList] at hchars
  split at hchars
  · exact absurd (List.cons.inj hchars).1 (by decide)
  · rw [(List.cons.inj hchars).1] at hdigit
    exact absurd hdigit (by decide)

/-! ## Records of a configuration -/

@[simp]
theorem OneOrMany.isFinite_toJson {α : Type} (write : α → Json) (items : OneOrMany α) :
    (items.toJson write).isFinite = items.toList.all fun item => (write item).isFinite := by
  cases items with
  | one item => exact (Bool.and_true _).symm
  | many items => simp [OneOrMany.toJson, OneOrMany.toList, Function.comp_def]

@[simp]
theorem TextStyle.isFinite_toJson (t : TextStyle) :
    t.toJson.isFinite = t.fontSize.all Float.isFinite := by
  simp [toJson]

@[simp]
theorem Axis.isFinite_toJson (a : Axis) :
    a.toJson.isFinite = (a.min.all Float.isFinite && a.max.all Float.isFinite &&
      a.axisLabel.fontSize.all Float.isFinite && a.nameTextStyle.fontSize.all Float.isFinite) := by
  simp [toJson, Bool.and_assoc]

@[simp]
theorem Grid.isFinite_toJson (g : Grid) : g.toJson.isFinite = true := by
  simp [toJson]

@[simp]
theorem Encode.isFinite_toJson (e : Encode) : e.toJson.isFinite = true := by
  simp [toJson]

def Datum.isFinite : Datum → Bool
  | .number x => x.isFinite
  | .text _ | .count _ | .gap => true

@[simp]
theorem Datum.isFinite_toJson (d : Datum) : d.toJson.isFinite = d.isFinite := by
  cases d with
  | number x => exact Json.isFinite_float x
  | text | count | gap => rfl

@[simp]
theorem Point.isFinite_toJson (p : Point) : (Point.toJson p).isFinite = p.all Datum.isFinite := by
  simp [toJson, Function.comp_def]

@[simp]
theorem Label.isFinite_toJson (l : Label) :
    l.toJson.isFinite = l.fontSize.all Float.isFinite := by
  simp [toJson]

@[simp]
theorem LineStyle.isFinite_toJson (s : LineStyle) :
    s.toJson.isFinite = s.dash.all fun dash => dash.all Float.isFinite := by
  simp [toJson, Function.comp_def]

@[simp]
theorem Series.isFinite_toJson (s : Series) :
    s.toJson.isFinite = ((s.data.all fun p => p.all Datum.isFinite) &&
      (s.lineStyle.all fun style => style.dash.all fun dash => dash.all Float.isFinite) &&
      s.label.all fun label => label.fontSize.all Float.isFinite) := by
  have harea : (if s.fillsArea then [("areaStyle", Json.object [])] else []).all
      (fun member => member.2.isFinite) = true := by
    split <;> rfl
  simp only [toJson, Json.isFinite_object, List.all_append, harea]
  simp [Function.comp_def, Bool.and_assoc]

def Coord.isFinite : Coord → Bool
  | .pixels x => x.isFinite
  | .expression _ => true

@[simp]
theorem Coord.isFinite_toJson (c : Coord) : c.toJson.isFinite = c.isFinite := by
  cases c with
  | pixels x => exact Json.isFinite_float x
  | expression text => rfl

/-- The coordinates of the shape, and its size. -/
def GraphicShape.coords : GraphicShape → List Coord
  | text left top => [left, top]
  | line x1 y1 x2 y2 => [x1, y1, x2, y2]
  | rect x y width height => [x, y, width, height]

@[simp]
theorem GraphicShape.all_members (s : GraphicShape) :
    s.members.all (fun member => member.2.isFinite) = s.coords.all Coord.isFinite := by
  cases s <;> simp [members, coords]

@[simp]
theorem GraphicStyle.isFinite_toJson (s : GraphicStyle) :
    s.toJson.isFinite = (s.lineWidth.all Float.isFinite &&
      (s.lineDash.all fun dash => dash.all Float.isFinite) && s.fontSize.all Float.isFinite) := by
  simp [toJson, Function.comp_def, Bool.and_assoc]

@[simp]
theorem Graphic.isFinite_toJson (g : Graphic) :
    g.toJson.isFinite = (g.shape.coords.all Coord.isFinite && g.style.toJson.isFinite) := by
  simp [toJson]

@[simp]
theorem Legend.isFinite_toJson (l : Legend) :
    l.toJson.isFinite = l.textStyle.toJson.isFinite := by
  simp [toJson]

@[simp]
theorem Tooltip.isFinite_toJson (t : Tooltip) :
    t.toJson.isFinite = t.textStyle.toJson.isFinite := by
  simp [toJson]

/-- All that a configuration writes as doubles. -/
theorem RenderConfig.isFinite_toJson (c : RenderConfig) :
    c.toJson.isFinite = ((c.xAxis.toList ++ c.yAxis.toList).all (·.toJson.isFinite) &&
      c.series.all (·.toJson.isFinite) && (c.graphic.all fun gs => gs.all (·.toJson.isFinite)) &&
      [c.legend.textStyle, c.tooltip.textStyle, c.textStyle].all (·.toJson.isFinite)) := by
  have hgrid : (c.grid.all fun grids => (Json.array (grids.map Grid.toJson)).isFinite) = true := by
    cases c.grid with
    | none => rfl
    | some grids => simp [Function.comp_def]
  simp only [toJson, Json.isFinite_object, List.all_append, Json.all_given, hgrid]
  simp [Function.comp_def, Bool.and_assoc]

end ChartCompiler
