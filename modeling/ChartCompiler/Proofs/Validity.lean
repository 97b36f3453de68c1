import ChartCompiler.Proofs.Expression.HexCodes
import ChartCompiler.Proofs.Omission
import ChartCompiler.Spec.Validity
import Mathlib.Data.List.DropRight

/-!
# When a specification is valid

The rules that a specification has to obey, part by part and in plain terms: which fields name
columns, which numbers are in range, which texts are colours and which coordinates mean
something. Each part of a specification adds no violation exactly when it obeys its rule.
-/

namespace ChartCompiler

/-! ## Colours -/

/-- Nothing is left of a text exactly if it is all white space. -/
theorem trim_eq_nil_iff (s : List Char) : trim s = [] ↔ s.all isWhiteSpace = true := by
  change List.rdropWhile isWhiteSpace (s.dropWhile isWhiteSpace) = [] ↔ _
  rw [List.rdropWhile_eq_nil_iff, List.all_eq_true]
  constructor
  · intro hrest c hc
    rw [← List.takeWhile_append_dropWhile (p := isWhiteSpace) (l := s)] at hc
    rcases List.mem_append.mp hc with hfront | hback
    · exact List.mem_takeWhile_imp hfront
    · exact hrest c hback
  · intro hall c hc
    exact hall c ((List.dropWhile_sublist _).subset hc)

/-- Three or six hexadecimal digits. -/
def IsHexCode (digits : List Char) : Prop :=
  (digits.length = 3 ∨ digits.length = 6) ∧ ∀ c ∈ digits, (hexValue? c).isSome = true

namespace Rgb

/-- The code of a colour has three or six digits, and nothing else. -/
theorem isSome_parse?_iff (digits : List Char) :
    (parse? ('#' :: digits)).isSome = true ↔ IsHexCode digits := by
  rw [Option.isSome_iff_exists, exists_parse?_iff]
  simp only [IsCode, IsHexCode, List.cons.injEq, true_and, exists_eq_left', or_and_right,
    isSome_hexValue?_iff]

end Rgb

/-- The text can name a colour: it is not blank, and if it starts with `#` it is a code of
hexadecimal digits. White space around it does not count. -/
structure IsColor (s : String) : Prop where
  notBlank : isBlankText s = false
  code : ∀ digits, trim s.toList = '#' :: digits → IsHexCode digits

theorem isColorText_iff (s : String) : isColorText s = true ↔ IsColor s := by
  have hblank : isBlankText s = true ↔ trim s.toList = [] := (trim_eq_nil_iff _).symm
  unfold isColorText
  split
  next hnil =>
    rw [hnil] at hblank
    exact ⟨nofun, fun h => absurd (hblank.mpr rfl) (by simp [h.notBlank])⟩
  next digits hcode =>
    rw [Rgb.isSome_parse?_iff]
    constructor
    · intro hdigits
      refine ⟨by simpa [hcode] using hblank, fun other hother => ?_⟩
      rw [hcode] at hother
      obtain rfl := (List.cons.inj hother).2
      exact hdigits
    · exact fun h => h.code digits hcode
  next hne hother =>
    refine ⟨fun _ => ⟨?_, fun digits hdigits => (hother digits hdigits).elim⟩, fun _ => rfl⟩
    exact Bool.eq_false_iff.mpr fun hall => hne (hblank.mp hall)

/-! ## The rules of the parts -/

structure NamesColumn (columns : List Column) (field : String) : Prop where
  notBlank : isBlankText field = false
  exists_column : ∃ column ∈ columns, column.name = field

theorem FieldDef.violations_eq_nil_iff_namesColumn (columns : List Column) (channel : Channel)
    (f : FieldDef) : f.violations columns channel = [] ↔ NamesColumn columns f.field := by
  rw [violations_eq_nil_iff]
  exact ⟨fun h => ⟨h.1, h.2⟩, fun h => ⟨h.notBlank, h.exists_column⟩⟩

/-- A secondary channel names a column and is quantitative. -/
theorem FieldDef.y2Violations_eq_nil_iff (columns : List Column) (f : FieldDef) :
    f.y2Violations columns = [] ↔ NamesColumn columns f.field ∧ f.type = .quantitative := by
  rw [y2Violations, List.append_eq_nil_iff, violations_eq_nil_iff_namesColumn,
    Violation.when_eq_nil_iff]
  simp

/-- A facet names a column, the first of its name, and that is nominal or ordinal. -/
theorem Facet.fieldViolations_eq_nil_iff (columns : List Column) (f : Facet) :
    f.fieldViolations columns = [] ↔ NamesColumn columns f.field ∧
      ∀ column ∈ columns.find? (·.name = f.field),
        column.semanticType = .nominal ∨ column.semanticType = .ordinal := by
  have hcategorical : ∀ t : SemanticType, t.isCategorical = true ↔ t = .nominal ∨ t = .ordinal := by
    intro t
    cases t <;> simp [SemanticType.isCategorical]
  unfold fieldViolations
  cases hblank : isBlankText f.field with
  | true => exact ⟨nofun, fun h => absurd h.1.notBlank (by simp [hblank])⟩
  | false =>
      cases hfind : columns.find? (·.name = f.field) with
      | none =>
          refine ⟨nofun, fun h => ?_⟩
          obtain ⟨column, hcolumn, hname⟩ := h.1.exists_column
          exact absurd hname (by simpa using List.find?_eq_none.mp hfind column hcolumn)
      | some column =>
          have hnames : NamesColumn columns f.field :=
            ⟨hblank, column, List.mem_of_find?_eq_some hfind,
              by simpa using List.find?_some hfind⟩
          simp [Violation.when_eq_nil_iff, hcategorical, hnames]

theorem Facet.columnViolations_eq_nil_iff (f : Facet) :
    f.columnViolations = [] ↔ ∀ count ∈ f.columnCount, 1 ≤ count ∧ count ≤ 6 := by
  unfold columnViolations
  cases f.columnCount with
  | none => simp
  | some count => simp [Violation.when_eq_nil_iff, Nat.one_le_iff_ne_zero]

theorem ErrorBar.violations_eq_nil_iff (e : ErrorBar) :
    e.violations = [] ↔ (e.kind = .confidence → ∀ value ∈ e.value, 0 < value ∧ value < 100) := by
  unfold violations
  cases e.kind <;> cases e.value <;> simp [Violation.when_eq_nil_iff]

/-- An annotation obeys the rules: coordinates mean something, a rectangle has no keywords for
coordinates and one unit for all of them, and the colour is a colour. -/
structure Annotation.InOrder (a : Annotation) : Prop where
  coordinates : ∀ corner, ∀ coord ∈ a.coord? corner, ∃ position, coord.position? = some position
  noKeyword : a.kind = .rect → ∀ corner keyword, a.position? corner ≠ some (.keyword keyword)
  oneUnit : a.kind = .rect →
    ¬((∃ corner value, a.position? corner = some (.pixels value)) ∧
      ∃ corner value, a.position? corner = some (.percent value))
  color : ∀ color ∈ a.color, IsColor color

namespace Annotation

theorem coordViolations_eq_nil_iff (index : Nat) (a : Annotation) (corner : Corner) :
    a.coordViolations index corner = [] ↔
      ∀ coord ∈ a.coord? corner, ∃ position, coord.position? = some position := by
  unfold coordViolations
  cases a.coord? corner with
  | none => simp
  | some coord =>
      simp [Violation.when_eq_nil_iff, Option.isNone_eq_false_iff, Option.isSome_iff_exists]

theorem isKeyword_iff (p : Option Position) :
    isKeyword p = true ↔ ∃ keyword, p = some (.keyword keyword) := by
  unfold isKeyword
  split <;> simp_all

theorem isPixels_iff (p : Option Position) :
    isPixels p = true ↔ ∃ value, p = some (.pixels value) := by
  unfold isPixels
  split <;> simp_all

theorem isPercent_iff (p : Option Position) :
    isPercent p = true ↔ ∃ value, p = some (.percent value) := by
  unfold isPercent
  split <;> simp_all

theorem rectViolations_eq_nil_iff (index : Nat) (a : Annotation) :
    a.rectViolations index = [] ↔ (a.kind = .rect →
      (∀ corner keyword, a.position? corner ≠ some (.keyword keyword)) ∧
      ¬((∃ corner value, a.position? corner = some (.pixels value)) ∧
        ∃ corner value, a.position? corner = some (.percent value))) := by
  unfold rectViolations
  cases a.kind with
  | text | line => simp
  | rect =>
      simp only [List.append_eq_nil_iff, List.flatMap_eq_nil_iff, Violation.when_eq_nil_iff,
        Bool.eq_false_iff, ne_eq, Bool.and_eq_true, List.any_eq_true, isKeyword_iff,
        isPixels_iff, isPercent_iff, Corner.mem_all, true_and, forall_const, not_exists]

theorem colorViolations_eq_nil_iff (index : Nat) (a : Annotation) :
    a.colorViolations index = [] ↔ ∀ color ∈ a.color, IsColor color := by
  unfold colorViolations
  cases a.color with
  | none => simp
  | some color => simp [Violation.when_eq_nil_iff, isColorText_iff]

theorem violations_eq_nil_iff (index : Nat) (a : Annotation) :
    a.violations index = [] ↔ a.InOrder := by
  simp only [violations, List.append_eq_nil_iff, List.flatMap_eq_nil_iff, Corner.mem_all,
    forall_const, coordViolations_eq_nil_iff, rectViolations_eq_nil_iff,
    colorViolations_eq_nil_iff]
  constructor
  · rintro ⟨⟨hcoordinates, hrect⟩, hcolor⟩
    exact ⟨hcoordinates, fun h => (hrect h).1, fun h => (hrect h).2, hcolor⟩
  · intro h
    exact ⟨⟨h.coordinates, fun hrect => ⟨h.noKeyword hrect, h.oneUnit hrect⟩⟩, h.color⟩

end Annotation

end ChartCompiler
