import ChartCompiler.Proofs.Validity

/-!
# Violations part by part

A specification is checked part by part, and what is said of one part depends on that part and
the columns alone. The list of violations therefore splits by part: where some parts are
repaired, exactly their violations go, and all others stay as they are and in their order.
-/

namespace ChartCompiler

open Violation (when)

/-- The parts of a specification that are checked, each on its own. -/
inductive Part where
  | x
  | y
  | sameField
  | y2
  | color
  | facetField
  | facetColumns
  | confidence
  | styleColor (index : Nat)
  | overlay (index : Nat)
  deriving DecidableEq

def Channel.part : Channel → Part
  | x => .x
  | y => .y
  | y2 => .y2
  | color => .color
  | facet => .facetField

def Violation.part : Violation → Part
  | emptyField channel | unknownField channel _ => channel.part
  | sameField _ => .sameField
  | y2NotQuantitative _ => .y2
  | facetNotCategorical _ _ => .facetField
  | facetColumnsOutOfRange _ => .facetColumns
  | confidenceOutOfRange _ => .confidence
  | invalidColor index _ => .styleColor index
  | invalidCoordinate index _ _ | mixedUnits index | keywordInRect index _
  | invalidAnnotationColor index _ => .overlay index

theorem Violation.mem_when_iff {condition : Bool} {v violation : Violation} :
    v ∈ when condition violation ↔ condition = true ∧ v = violation := by
  cases condition <;> simp [when]

namespace ChartSpec

def styleColors (spec : ChartSpec) : List String :=
  spec.style.colors.getD []

def contribution (spec : ChartSpec) : Part → List Violation
  | .x => spec.encoding.x.violations spec.columns .x
  | .y => spec.encoding.y.violations spec.columns .y
  | .sameField => spec.encoding.sameFieldViolations
  | .y2 => (spec.encoding.y2.map (·.y2Violations spec.columns)).getD []
  | .color => (spec.encoding.color.map (·.violations spec.columns .color)).getD []
  | .facetField => (spec.facet.map (·.fieldViolations spec.columns)).getD []
  | .facetColumns => (spec.facet.map (·.columnViolations)).getD []
  | .confidence => (spec.errorBar.map (·.violations)).getD []
  | .styleColor index =>
      (spec.styleColors[index]?.map fun value =>
        when (!isColorText value) (.invalidColor index value)).getD []
  | .overlay index => (spec.annotations[index]?.map (·.violations index)).getD []

/-- The parts in order, with room for a number of colours and annotations. -/
def partsUpTo (colors annotations : Nat) : List Part :=
  [.x, .y, .sameField, .y2, .color, .facetField, .facetColumns, .confidence] ++
    (List.range colors).map .styleColor ++ (List.range annotations).map .overlay

theorem styleColor_mem_partsUpTo {colors annotations index : Nat} :
    .styleColor index ∈ partsUpTo colors annotations ↔ index < colors := by
  simp [partsUpTo]

theorem overlay_mem_partsUpTo {colors annotations index : Nat} :
    .overlay index ∈ partsUpTo colors annotations ↔ index < annotations := by
  simp [partsUpTo]

def parts (spec : ChartSpec) : List Part :=
  partsUpTo spec.styleColors.length spec.annotations.length

def Obeys (spec : ChartSpec) : Part → Prop
  | .x => NamesColumn spec.columns spec.encoding.x.field
  | .y => NamesColumn spec.columns spec.encoding.y.field
  | .sameField => spec.encoding.x.field ≠ "" → spec.encoding.x.field ≠ spec.encoding.y.field
  | .y2 => ∀ f ∈ spec.encoding.y2, NamesColumn spec.columns f.field ∧ f.type = .quantitative
  | .color => ∀ f ∈ spec.encoding.color, NamesColumn spec.columns f.field
  | .facetField => ∀ f ∈ spec.facet, NamesColumn spec.columns f.field ∧
      ∀ column ∈ spec.columns.find? (·.name = f.field),
        column.semanticType = .nominal ∨ column.semanticType = .ordinal
  | .facetColumns => ∀ f ∈ spec.facet, ∀ count ∈ f.columnCount, 1 ≤ count ∧ count ≤ 6
  | .confidence => ∀ e ∈ spec.errorBar, e.kind = .confidence →
      ∀ value ∈ e.value, 0 < value ∧ value < 100
  | .styleColor index => ∀ value ∈ spec.styleColors[index]?, IsColor value
  | .overlay index => ∀ a ∈ spec.annotations[index]?, a.InOrder

/-- Both specifications have the same part. The field and the column count of a facet are parts
of their own. -/
def SamePart (spec other : ChartSpec) : Part → Prop
  | .x => spec.encoding.x = other.encoding.x
  | .y => spec.encoding.y = other.encoding.y
  | .sameField => spec.encoding.x = other.encoding.x ∧ spec.encoding.y = other.encoding.y
  | .y2 => spec.encoding.y2 = other.encoding.y2
  | .color => spec.encoding.color = other.encoding.color
  | .facetField => spec.facet.map (·.field) = other.facet.map (·.field)
  | .facetColumns => spec.facet.map (·.columnCount) = other.facet.map (·.columnCount)
  | .confidence => spec.errorBar = other.errorBar
  | .styleColor index => spec.styleColors[index]? = other.styleColors[index]?
  | .overlay index => spec.annotations[index]? = other.annotations[index]?

/-! ## One part -/

/-- Of an optional part only a given one has violations. -/
theorem getD_map_eq_nil_iff {α : Type} (part : Option α) (check : α → List Violation) :
    (part.map check).getD [] = [] ↔ ∀ x ∈ part, check x = [] := by
  cases part <;> simp

theorem contribution_eq_nil_iff (spec : ChartSpec) (p : Part) :
    spec.contribution p = [] ↔ spec.Obeys p := by
  cases p with
  | x | y => exact FieldDef.violations_eq_nil_iff_namesColumn _ _ _
  | sameField =>
      simp [contribution, Obeys, Encoding.sameFieldViolations, Violation.when_eq_nil_iff]
  | y2 =>
      simp only [contribution, Obeys, getD_map_eq_nil_iff, FieldDef.y2Violations_eq_nil_iff]
  | color =>
      simp only [contribution, Obeys, getD_map_eq_nil_iff,
        FieldDef.violations_eq_nil_iff_namesColumn]
  | facetField =>
      simp only [contribution, Obeys, getD_map_eq_nil_iff, Facet.fieldViolations_eq_nil_iff]
  | facetColumns =>
      simp only [contribution, Obeys, getD_map_eq_nil_iff, Facet.columnViolations_eq_nil_iff]
  | confidence =>
      simp only [contribution, Obeys, getD_map_eq_nil_iff, ErrorBar.violations_eq_nil_iff]
  | styleColor index =>
      simp only [contribution, Obeys, getD_map_eq_nil_iff, Violation.when_eq_nil_iff,
        Bool.not_eq_false', isColorText_iff]
  | overlay index =>
      simp only [contribution, Obeys, getD_map_eq_nil_iff, Annotation.violations_eq_nil_iff]

/-- What is said of a part depends on that part and the columns alone. -/
theorem contribution_congr {spec other : ChartSpec} (hcolumns : other.columns = spec.columns)
    {p : Part} (hsame : other.SamePart spec p) : other.contribution p = spec.contribution p := by
  cases p with
  | x | y | y2 | color | confidence =>
      simp only [contribution, hcolumns, show _ = _ from hsame]
  | sameField =>
      obtain ⟨hx, hy⟩ := hsame
      simp only [contribution, Encoding.sameFieldViolations, hx, hy]
  | facetField =>
      have hfield (facet : Option Facet) :
          (facet.map (·.fieldViolations spec.columns)).getD [] =
            ((facet.map (·.field)).map fun field =>
              Facet.fieldViolations spec.columns ⟨field, none, true, true⟩).getD [] := by
        cases facet <;> rfl
      simp only [contribution, hcolumns, hfield, show _ = _ from hsame]
  | facetColumns =>
      have hcount (facet : Option Facet) :
          (facet.map (·.columnViolations)).getD [] =
            ((facet.map (·.columnCount)).map fun count =>
              Facet.columnViolations ⟨"", count, true, true⟩).getD [] := by
        cases facet <;> rfl
      simp only [contribution, hcount, show _ = _ from hsame]
  | styleColor index | overlay index =>
      simp only [contribution, show _ = _ from hsame]

end ChartSpec

theorem FieldDef.part_of_mem_violations {columns : List Column} {channel : Channel} {f : FieldDef}
    {v : Violation} (hv : v ∈ f.violations columns channel) : v.part = channel.part := by
  unfold violations at hv
  split at hv
  · rw [List.mem_singleton.mp hv]
    rfl
  · rw [(Violation.mem_when_iff.mp hv).2]
    rfl

theorem FieldDef.part_of_mem_y2Violations {columns : List Column} {f : FieldDef} {v : Violation}
    (hv : v ∈ f.y2Violations columns) : v.part = .y2 := by
  rcases List.mem_append.mp hv with hfield | htype
  · exact part_of_mem_violations hfield
  · rw [(Violation.mem_when_iff.mp htype).2]
    rfl

theorem Facet.part_of_mem_fieldViolations {columns : List Column} {f : Facet} {v : Violation}
    (hv : v ∈ f.fieldViolations columns) : v.part = .facetField := by
  unfold fieldViolations at hv
  split at hv
  · rw [List.mem_singleton.mp hv]
    rfl
  · split at hv
    · rw [List.mem_singleton.mp hv]
      rfl
    · rw [(Violation.mem_when_iff.mp hv).2]
      rfl

theorem Facet.part_of_mem_columnViolations {f : Facet} {v : Violation}
    (hv : v ∈ f.columnViolations) : v.part = .facetColumns := by
  unfold columnViolations at hv
  split at hv
  · exact absurd hv List.not_mem_nil
  · rw [(Violation.mem_when_iff.mp hv).2]
    rfl

theorem ErrorBar.part_of_mem_violations {e : ErrorBar} {v : Violation} (hv : v ∈ e.violations) :
    v.part = .confidence := by
  unfold violations at hv
  split at hv
  · rw [(Violation.mem_when_iff.mp hv).2]
    rfl
  · exact absurd hv List.not_mem_nil

theorem Annotation.part_of_mem_violations {index : Nat} {a : Annotation} {v : Violation}
    (hv : v ∈ a.violations index) : v.part = .overlay index := by
  simp only [violations, List.mem_append, List.mem_flatMap] at hv
  rcases hv with ⟨⟨corner, -, hcoord⟩ | hrect⟩ | hcolor
  · unfold coordViolations at hcoord
    split at hcoord
    · exact absurd hcoord List.not_mem_nil
    · rw [(Violation.mem_when_iff.mp hcoord).2]
      rfl
  · unfold rectViolations at hrect
    split at hrect
    · simp only [List.mem_append, List.mem_flatMap, Violation.mem_when_iff] at hrect
      rcases hrect with ⟨corner, -, -, rfl⟩ | ⟨-, rfl⟩ <;> rfl
    · exact absurd hrect List.not_mem_nil
  · unfold colorViolations at hcolor
    split at hcolor
    · exact absurd hcolor List.not_mem_nil
    · rw [(Violation.mem_when_iff.mp hcolor).2]
      rfl

namespace ChartSpec

theorem mem_getD_map_iff {α : Type} {part : Option α} {check : α → List Violation}
    {v : Violation} : v ∈ (part.map check).getD [] ↔ ∃ x ∈ part, v ∈ check x := by
  cases part <;> simp

/-- Every violation of a part says which part it is about. -/
theorem part_of_mem_contribution {spec : ChartSpec} {p : Part} {v : Violation}
    (hv : v ∈ spec.contribution p) : v.part = p := by
  cases p with
  | x | y => exact FieldDef.part_of_mem_violations hv
  | sameField =>
      rw [(Violation.mem_when_iff.mp hv).2]
      rfl
  | y2 =>
      obtain ⟨f, -, hf⟩ := mem_getD_map_iff.mp hv
      exact FieldDef.part_of_mem_y2Violations hf
  | color =>
      obtain ⟨f, -, hf⟩ := mem_getD_map_iff.mp hv
      exact FieldDef.part_of_mem_violations hf
  | facetField =>
      obtain ⟨f, -, hf⟩ := mem_getD_map_iff.mp hv
      exact Facet.part_of_mem_fieldViolations hf
  | facetColumns =>
      obtain ⟨f, -, hf⟩ := mem_getD_map_iff.mp hv
      exact Facet.part_of_mem_columnViolations hf
  | confidence =>
      obtain ⟨e, -, he⟩ := mem_getD_map_iff.mp hv
      exact ErrorBar.part_of_mem_violations he
  | styleColor index =>
      obtain ⟨value, -, hvalue⟩ := mem_getD_map_iff.mp hv
      rw [(Violation.mem_when_iff.mp hvalue).2]
      rfl
  | overlay index =>
      obtain ⟨a, -, ha⟩ := mem_getD_map_iff.mp hv
      exact Annotation.part_of_mem_violations ha

/-! ## All parts -/

/-- Items that are checked with their places can be looked up by place. -/
theorem flatMap_zipIdx_eq {α : Type} (items : List α) (check : Nat → α → List Violation) :
    (items.zipIdx.flatMap fun entry => check entry.2 entry.1) =
      (List.range items.length).flatMap fun index =>
        (items[index]?.map (check index)).getD [] := by
  induction items using List.reverseRecOn with
  | nil => rfl
  | append_singleton items item ih =>
      have hearlier : ∀ index ∈ List.range items.length,
          ((items ++ [item])[index]?.map (check index)).getD [] =
            (items[index]?.map (check index)).getD [] := by
        intro index hindex
        rw [List.getElem?_append_left (List.mem_range.mp hindex)]
      rw [List.zipIdx_append, List.flatMap_append, ih, List.length_append, List.length_singleton,
        List.range_succ, List.flatMap_append, List.flatMap_congr hearlier]
      simp

/-- Places behind the last item add nothing. -/
theorem flatMap_range_getElem? {α : Type} (items : List α) (check : Nat → α → List Violation)
    {n : Nat} (hn : items.length ≤ n) :
    ((List.range n).flatMap fun index => (items[index]?.map (check index)).getD []) =
      (List.range items.length).flatMap fun index =>
        (items[index]?.map (check index)).getD [] := by
  obtain ⟨more, rfl⟩ := Nat.exists_eq_add_of_le hn
  rw [List.range_add, List.flatMap_append, List.flatMap_map]
  simp

/-- The violations are those of the parts, in the order of the parts. -/
theorem violations_eq_flatMap (spec : ChartSpec) {colors annotations : Nat}
    (hcolors : spec.styleColors.length ≤ colors)
    (hannotations : spec.annotations.length ≤ annotations) :
    spec.violations = (partsUpTo colors annotations).flatMap spec.contribution := by
  have hstyle := flatMap_range_getElem? spec.styleColors
    (fun index value => when (!isColorText value) (.invalidColor index value)) hcolors
  have hshapes := flatMap_range_getElem? spec.annotations (fun index a => a.violations index)
    hannotations
  rw [← flatMap_zipIdx_eq] at hstyle hshapes
  simp only [partsUpTo, List.flatMap_append, List.flatMap_map]
  simp only [contribution, hstyle, hshapes]
  simp only [violations, Style.violations, styleColors, List.flatMap_cons, List.flatMap_nil,
    contribution, List.append_assoc, List.append_nil]

/-- Among the violations of a part all or none are of the kept parts. -/
theorem filter_contribution (spec : ChartSpec) (kept : Part → Bool) (p : Part) :
    (spec.contribution p).filter (fun v => kept v.part) =
      if kept p then spec.contribution p else [] := by
  split
  next hkept =>
    refine List.filter_eq_self.mpr fun v hv => ?_
    rw [part_of_mem_contribution hv, hkept]
  next hdropped =>
    refine List.filter_eq_nil_iff.mpr fun v hv => ?_
    rwa [part_of_mem_contribution hv]

section Repair

variable {spec other : ChartSpec} {kept : Part → Bool}
  (hcolumns : other.columns = spec.columns)
  (hsame : ∀ p, kept p = true → other.SamePart spec p)
include hcolumns hsame

/-- Whatever happens to other parts, the violations of the kept ones stay as they are. -/
theorem filter_violations_eq :
    other.violations.filter (fun v => kept v.part) =
      spec.violations.filter fun v => kept v.part := by
  rw [violations_eq_flatMap other (Nat.le_max_left _ spec.styleColors.length)
      (Nat.le_max_left _ spec.annotations.length),
    violations_eq_flatMap spec (Nat.le_max_right other.styleColors.length _)
      (Nat.le_max_right other.annotations.length _),
    List.filter_flatMap, List.filter_flatMap]
  refine List.flatMap_congr fun p _ => ?_
  rw [filter_contribution, filter_contribution]
  split
  next hkept => exact contribution_congr hcolumns (hsame p hkept)
  next => rfl

/-- Where all other parts are in order, the violations of the kept ones are all that is left. -/
theorem violations_eq_filter (hobeys : ∀ p, kept p = false → other.Obeys p) :
    other.violations = spec.violations.filter fun v => kept v.part := by
  rw [← filter_violations_eq hcolumns hsame]
  refine (List.filter_eq_self.mpr fun v hv => ?_).symm
  rw [violations_eq_flatMap other le_rfl le_rfl] at hv
  obtain ⟨p, -, hp⟩ := List.mem_flatMap.mp hv
  by_contra hdropped
  rw [Bool.not_eq_true, part_of_mem_contribution hp] at hdropped
  have hnone := (contribution_eq_nil_iff other p).mpr (hobeys p hdropped)
  rw [hnone] at hp
  exact List.not_mem_nil hp

end Repair

end ChartSpec

/-! ## Items taken out of a list -/

/-- The place of an item once the item at `removed` is gone. -/
def placeWithout (removed index : Nat) : Nat :=
  if removed < index then index - 1 else index

/-- The violation as it reads once a colour or an annotation is taken out of its list. -/
def Violation.without (removed : Part) (v : Violation) : Violation :=
  match removed, v with
  | .styleColor i, invalidColor index value => invalidColor (placeWithout i index) value
  | .overlay i, invalidCoordinate index corner text =>
      invalidCoordinate (placeWithout i index) corner text
  | .overlay i, mixedUnits index => mixedUnits (placeWithout i index)
  | .overlay i, keywordInRect index corner => keywordInRect (placeWithout i index) corner
  | .overlay i, invalidAnnotationColor index value =>
      invalidAnnotationColor (placeWithout i index) value
  | _, v => v

/-- The parts are items of one list. -/
def Part.inOneList : Part → Part → Bool
  | .styleColor _, .styleColor _ | .overlay _, .overlay _ => true
  | _, _ => false

theorem Violation.without_eq_self {removed : Part} {v : Violation}
    (hother : removed.inOneList v.part = false) : v.without removed = v := by
  cases removed with
  | styleColor i => cases v <;> first | rfl | cases hother
  | overlay i => cases v <;> first | rfl | cases hother
  | _ => rfl

/-- Violations of parts outside the list stay as they are when an item is taken out of it. -/
theorem Violation.map_without_filter {removed : Part} {violations : List Violation}
    (hself : removed.inOneList removed = true)
    (hother : ∀ v ∈ violations, removed.inOneList v.part = false) :
    (violations.filter (·.part ≠ removed)).map (.without removed) = violations := by
  have hkept : violations.filter (·.part ≠ removed) = violations := by
    refine List.filter_eq_self.mpr fun v hv => decide_eq_true fun heq => ?_
    have hout := hother v hv
    rw [heq, hself] at hout
    cases hout
  rw [hkept, List.map_congr_left fun v hv => without_eq_self (hother v hv), List.map_id']

theorem Annotation.map_without_violations (i index : Nat) (a : Annotation) :
    (a.violations index).map (.without (.overlay i)) = a.violations (placeWithout i index) := by
  have hwhen (condition : Bool) (v : Violation) :
      (when condition v).map (.without (.overlay i)) =
        when condition (v.without (.overlay i)) := by
    cases condition <;> rfl
  have hcoord (corner : Corner) :
      (a.coordViolations index corner).map (.without (.overlay i)) =
        a.coordViolations (placeWithout i index) corner := by
    unfold coordViolations
    cases a.coord? corner with
    | none => rfl
    | some coord => exact hwhen _ _
  have hrect : (a.rectViolations index).map (.without (.overlay i)) =
      a.rectViolations (placeWithout i index) := by
    unfold rectViolations
    cases a.kind with
    | text | line => rfl
    | rect => simp only [List.map_append, List.map_flatMap, hwhen, Violation.without]
  have hcolor : (a.colorViolations index).map (.without (.overlay i)) =
      a.colorViolations (placeWithout i index) := by
    unfold colorViolations
    cases a.color with
    | none => rfl
    | some color => exact hwhen _ _
  simp only [violations, List.map_append, List.map_flatMap, hcoord, hrect, hcolor]

/-- Taking out an item moves the later ones up by one place. -/
theorem flatMap_zipIdx_eraseIdx {α : Type} (items : List α) (i k : Nat)
    (check : Nat → α → List Violation) :
    (((items.eraseIdx i).zipIdx k).flatMap fun entry => check entry.2 entry.1) =
      (items.zipIdx k).flatMap fun entry =>
        if entry.2 = k + i then [] else check (placeWithout (k + i) entry.2) entry.1 := by
  induction items generalizing i k with
  | nil => rfl
  | cons item rest ih =>
      cases i with
      | zero =>
          rw [List.eraseIdx_cons_zero, List.zipIdx_cons, List.flatMap_cons, List.zipIdx_succ,
            List.flatMap_map, Nat.add_zero]
          dsimp only
          rw [if_pos rfl, List.nil_append]
          refine List.flatMap_congr fun entry hentry => ?_
          have hplace := List.le_snd_of_mem_zipIdx hentry
          have hbehind : ¬entry.2 + 1 = k := by omega
          have hmoved : placeWithout k (entry.2 + 1) = entry.2 := if_pos (by omega)
          simp [hbehind, hmoved]
      | succ i =>
          have hhead : ¬k = k + (i + 1) := by omega
          have hstays : placeWithout (k + (i + 1)) k = k := if_neg (by omega)
          rw [List.eraseIdx_cons_succ, List.zipIdx_cons, List.zipIdx_cons, List.flatMap_cons,
            List.flatMap_cons, ih]
          dsimp only
          rw [if_neg hhead, hstays, Nat.add_right_comm, Nat.add_assoc]

/-- What is said of the items of a list without one of them is what was said before, without that
item's violations and with the later places moved. -/
theorem flatMap_eraseIdx_eq {α : Type} (items : List α) (i : Nat)
    (check : Nat → α → List Violation) {part : Nat → Part} (hinjective : part.Injective)
    (hpart : ∀ index item, ∀ v ∈ check index item, v.part = part index)
    (hmoved : ∀ index item,
      (check index item).map (.without (part i)) = check (placeWithout i index) item) :
    ((items.eraseIdx i).zipIdx.flatMap fun entry => check entry.2 entry.1) =
      ((items.zipIdx.flatMap fun entry => check entry.2 entry.1).filter
        (·.part ≠ part i)).map (.without (part i)) := by
  rw [flatMap_zipIdx_eraseIdx, List.filter_flatMap, List.map_flatMap]
  refine List.flatMap_congr fun entry _ => ?_
  rw [Nat.zero_add]
  split
  next hgone =>
    have hnone : (check entry.2 entry.1).filter (·.part ≠ part i) = [] := by
      refine List.filter_eq_nil_iff.mpr fun v hv => ?_
      simp [hpart _ _ v hv, hgone]
    rw [hnone, List.map_nil]
  next hstays =>
    have hall : (check entry.2 entry.1).filter (·.part ≠ part i) = check entry.2 entry.1 := by
      refine List.filter_eq_self.mpr fun v hv => ?_
      simpa [hpart _ _ v hv] using fun heq => hstays (hinjective heq)
    rw [hall, hmoved]

namespace ChartSpec

def withoutLists (spec : ChartSpec) : ChartSpec :=
  { spec with style := { spec.style with colors := none }, annotations := [] }

def withoutColor (spec : ChartSpec) (i : Nat) : ChartSpec :=
  { spec with style := { spec.style with colors := spec.style.colors.map (·.eraseIdx i) } }

def withoutAnnotation (spec : ChartSpec) (i : Nat) : ChartSpec :=
  { spec with annotations := spec.annotations.eraseIdx i }

def colorViolations (colors : List String) : List Violation :=
  colors.zipIdx.flatMap fun entry => when (!isColorText entry.1) (.invalidColor entry.2 entry.1)

def annotationViolations (annotations : List Annotation) : List Violation :=
  annotations.zipIdx.flatMap fun entry => entry.1.violations entry.2

/-- The two lists are checked behind everything else. -/
theorem violations_eq_append (spec : ChartSpec) :
    spec.violations = spec.withoutLists.violations ++
      (colorViolations spec.styleColors ++ annotationViolations spec.annotations) := by
  simp only [violations, withoutLists, Style.violations, colorViolations, annotationViolations,
    styleColors, Option.getD_none, List.zipIdx_nil, List.flatMap_nil, List.append_nil,
    List.append_assoc]

theorem part_of_mem_colorViolations {colors : List String} {v : Violation}
    (hv : v ∈ colorViolations colors) : ∃ index, v.part = .styleColor index := by
  obtain ⟨entry, -, hentry⟩ := List.mem_flatMap.mp hv
  rw [(Violation.mem_when_iff.mp hentry).2]
  exact ⟨entry.2, rfl⟩

theorem part_of_mem_annotationViolations {annotations : List Annotation} {v : Violation}
    (hv : v ∈ annotationViolations annotations) : ∃ index, v.part = .overlay index := by
  obtain ⟨entry, -, hentry⟩ := List.mem_flatMap.mp hv
  exact ⟨entry.2, Annotation.part_of_mem_violations hentry⟩

theorem inOneList_of_mem_withoutLists {spec : ChartSpec} {v : Violation}
    (hv : v ∈ spec.withoutLists.violations) (removed : Part) :
    removed.inOneList v.part = false := by
  rw [violations_eq_flatMap spec.withoutLists le_rfl le_rfl] at hv
  obtain ⟨p, hp, hcontribution⟩ := List.mem_flatMap.mp hv
  have hfixed : p ∈ partsUpTo 0 0 := hp
  rw [part_of_mem_contribution hcontribution]
  simp only [partsUpTo, List.range_zero, List.map_nil, List.append_nil, List.mem_cons,
    List.not_mem_nil, or_false] at hfixed
  rcases hfixed with rfl | rfl | rfl | rfl | rfl | rfl | rfl | rfl <;> cases removed <;> rfl

/-- Where an annotation is taken out, exactly its violations go. -/
theorem violations_withoutAnnotation (spec : ChartSpec) (i : Nat) :
    (spec.withoutAnnotation i).violations =
      (spec.violations.filter (·.part ≠ .overlay i)).map (.without (.overlay i)) := by
  have hannotations := flatMap_eraseIdx_eq spec.annotations i
    (fun index a => a.violations index) (fun _ _ => Part.overlay.inj)
    (fun _ _ _ => Annotation.part_of_mem_violations)
    (fun index a => Annotation.map_without_violations i index a)
  have hother : ∀ v ∈ spec.withoutLists.violations ++ colorViolations spec.styleColors,
      (Part.overlay i).inOneList v.part = false := by
    intro v hv
    rcases List.mem_append.mp hv with hfixed | hcolor
    · exact inOneList_of_mem_withoutLists hfixed _
    · obtain ⟨index, hpart⟩ := part_of_mem_colorViolations hcolor
      rw [hpart]
      rfl
  rw [violations_eq_append, violations_eq_append spec, ← List.append_assoc, ← List.append_assoc,
    List.filter_append, List.map_append, Violation.map_without_filter rfl hother]
  exact congrArg _ hannotations

/-- Where a colour is taken out, exactly its violation goes. -/
theorem violations_withoutColor (spec : ChartSpec) (i : Nat) :
    (spec.withoutColor i).violations =
      (spec.violations.filter (·.part ≠ .styleColor i)).map (.without (.styleColor i)) := by
  have hpart : ∀ index value,
      ∀ v ∈ when (!isColorText value) (.invalidColor index value), v.part = .styleColor index := by
    intro index value v hv
    rw [(Violation.mem_when_iff.mp hv).2]
    rfl
  have hmoved : ∀ index value,
      (when (!isColorText value) (.invalidColor index value)).map (.without (.styleColor i)) =
        when (!isColorText value) (.invalidColor (placeWithout i index) value) := by
    intro index value
    cases isColorText value <;> rfl
  have hcolors := flatMap_eraseIdx_eq spec.styleColors i
    (fun index value => when (!isColorText value) (.invalidColor index value))
    (fun _ _ => Part.styleColor.inj) hpart hmoved
  have hleft : (spec.withoutColor i).styleColors = spec.styleColors.eraseIdx i := by
    unfold withoutColor styleColors
    cases spec.style.colors <;> rfl
  have hfixed : ∀ v ∈ spec.withoutLists.violations,
      (Part.styleColor i).inOneList v.part = false :=
    fun v hv => inOneList_of_mem_withoutLists hv _
  have hother : ∀ v ∈ annotationViolations spec.annotations,
      (Part.styleColor i).inOneList v.part = false := by
    intro v hv
    obtain ⟨index, hpart⟩ := part_of_mem_annotationViolations hv
    rw [hpart]
    rfl
  rw [violations_eq_append, violations_eq_append spec, hleft, List.filter_append,
    List.filter_append, List.map_append, List.map_append, Violation.map_without_filter rfl hfixed,
    Violation.map_without_filter rfl hother]
  exact congrArg (fun middle => _ ++ (middle ++ _)) hcolors

/-! ## The whole specification -/

/-- All that a valid specification has to be. -/
structure InOrder (spec : ChartSpec) : Prop where
  x : NamesColumn spec.columns spec.encoding.x.field
  y : NamesColumn spec.columns spec.encoding.y.field
  distinct : spec.encoding.x.field ≠ spec.encoding.y.field
  y2 : ∀ f ∈ spec.encoding.y2, NamesColumn spec.columns f.field ∧ f.type = .quantitative
  color : ∀ f ∈ spec.encoding.color, NamesColumn spec.columns f.field
  facetField : ∀ f ∈ spec.facet, NamesColumn spec.columns f.field ∧
    ∀ column ∈ spec.columns.find? (·.name = f.field),
      column.semanticType = .nominal ∨ column.semanticType = .ordinal
  facetColumns : ∀ f ∈ spec.facet, ∀ count ∈ f.columnCount, 1 ≤ count ∧ count ≤ 6
  confidence : ∀ e ∈ spec.errorBar, e.kind = .confidence →
    ∀ value ∈ e.value, 0 < value ∧ value < 100
  styleColors : ∀ value ∈ spec.styleColors, IsColor value
  annotations : ∀ a ∈ spec.annotations, a.InOrder

theorem inOrder_iff_obeys (spec : ChartSpec) : spec.InOrder ↔ ∀ p, spec.Obeys p := by
  constructor
  · intro h p
    cases p with
    | x => exact h.x
    | y => exact h.y
    | sameField => exact fun _ => h.distinct
    | y2 => exact h.y2
    | color => exact h.color
    | facetField => exact h.facetField
    | facetColumns => exact h.facetColumns
    | confidence => exact h.confidence
    | styleColor index => exact fun value hvalue => h.styleColors value (List.mem_of_getElem? hvalue)
    | overlay index => exact fun a ha => h.annotations a (List.mem_of_getElem? ha)
  · intro h
    have hx : NamesColumn spec.columns spec.encoding.x.field := h .x
    have hnotEmpty : spec.encoding.x.field ≠ "" := by
      intro hempty
      have hblank := hx.notBlank
      rw [hempty] at hblank
      exact absurd hblank (by decide)
    refine ⟨hx, h .y, h .sameField hnotEmpty, h .y2, h .color, h .facetField, h .facetColumns,
      h .confidence, fun value hvalue => ?_, fun a ha => ?_⟩
    · obtain ⟨index, hindex⟩ := List.mem_iff_getElem?.mp hvalue
      exact h (.styleColor index) value hindex
    · obtain ⟨index, hindex⟩ := List.mem_iff_getElem?.mp ha
      exact h (.overlay index) a hindex

/-- No violation of any part is left out. -/
theorem contribution_subset_violations (spec : ChartSpec) (p : Part) :
    spec.contribution p ⊆ spec.violations := by
  obtain ⟨colors, annotations, hcolors, hannotations, hp⟩ : ∃ colors annotations,
      spec.styleColors.length ≤ colors ∧ spec.annotations.length ≤ annotations ∧
        p ∈ partsUpTo colors annotations := by
    cases p with
    | styleColor index =>
        exact ⟨max spec.styleColors.length (index + 1), _, le_max_left _ _, le_rfl,
          styleColor_mem_partsUpTo.mpr (index.lt_succ_self.trans_le (Nat.le_max_right _ _))⟩
    | overlay index =>
        exact ⟨_, max spec.annotations.length (index + 1), le_rfl, le_max_left _ _,
          overlay_mem_partsUpTo.mpr (index.lt_succ_self.trans_le (Nat.le_max_right _ _))⟩
    | _ => exact ⟨_, _, le_rfl, le_rfl, by simp [partsUpTo]⟩
  rw [violations_eq_flatMap spec hcolors hannotations]
  exact fun v hv => List.mem_flatMap.mpr ⟨p, hp, hv⟩

theorem violations_eq_nil_iff_inOrder (spec : ChartSpec) :
    spec.violations = [] ↔ spec.InOrder := by
  rw [inOrder_iff_obeys]
  constructor
  · intro hnone p
    rw [← contribution_eq_nil_iff]
    exact List.subset_nil.mp (hnone ▸ contribution_subset_violations spec p)
  · intro hobeys
    rw [violations_eq_flatMap spec le_rfl le_rfl, List.flatMap_eq_nil_iff]
    exact fun p _ => (contribution_eq_nil_iff spec p).mpr (hobeys p)

/-- A specification is found valid exactly when it is in order. Otherwise its violations are those
of its parts, one part behind the other. What is said of a part depends on it and the columns
alone, so that with parts repaired or left out exactly their violations go. -/
theorem violations_by_part (spec : ChartSpec) :
    (spec.violations = [] ↔ spec.InOrder) ∧
      spec.violations = spec.parts.flatMap spec.contribution ∧
      (∀ p, (spec.contribution p = [] ↔ spec.Obeys p) ∧
        ∀ v ∈ spec.contribution p, v.part = p) ∧
      (∀ other : ChartSpec, other.columns = spec.columns →
        (∀ p, other.SamePart spec p → other.contribution p = spec.contribution p) ∧
        ∀ kept : Part → Bool, (∀ p, kept p = true → other.SamePart spec p) →
          (other.violations.filter fun v => kept v.part) =
              spec.violations.filter (fun v => kept v.part) ∧
            ((∀ p, kept p = false → other.Obeys p) →
              other.violations = spec.violations.filter fun v => kept v.part)) ∧
      ∀ i, (spec.withoutColor i).violations =
          (spec.violations.filter (·.part ≠ .styleColor i)).map (.without (.styleColor i)) ∧
        (spec.withoutAnnotation i).violations =
          (spec.violations.filter (·.part ≠ .overlay i)).map (.without (.overlay i)) := by
  refine ⟨violations_eq_nil_iff_inOrder spec, violations_eq_flatMap spec le_rfl le_rfl,
    fun p => ⟨contribution_eq_nil_iff spec p, fun v => part_of_mem_contribution⟩,
    fun other hcolumns => ⟨fun p => contribution_congr hcolumns, fun kept hsame => ?_⟩,
    fun i => ⟨violations_withoutColor spec i, violations_withoutAnnotation spec i⟩⟩
  exact ⟨filter_violations_eq hcolumns hsame, violations_eq_filter hcolumns hsame⟩

/-- A specification with mistakes in many parts: its secondary channel names no column and is not
quantitative, its facet asks for the given number of columns, two colours and a rectangle are
wrong. -/
def mistaken (columnCount : Nat) : ChartSpec :=
  { crowded with
    encoding := { crowded.encoding with y2 := some ⟨"costs", .nominal, none⟩ }
    facet := some ⟨"quarter", some columnCount, true, true⟩
    style := { crowded.style with colors := some ["#12", "red", " "] }
    annotations := [⟨.rect, some (.pixels 10), some (.expression "top"), some (.expression "5%"),
      some (.expression "5px"), none, none, none⟩] }

example : (mistaken 9).violations.map Violation.part =
    [.y2, .y2, .facetColumns, .styleColor 0, .styleColor 2, .overlay 0, .overlay 0,
      .overlay 0] := by
  decide +kernel

/-- With its column count repaired all other mistakes stay. -/
theorem violations_by_part_mistaken :
    (mistaken 2).columns = (mistaken 9).columns ∧
      (∀ p, decide (p ≠ .facetColumns) = true → (mistaken 2).SamePart (mistaken 9) p) ∧
      (∀ p, decide (p ≠ .facetColumns) = false → (mistaken 2).Obeys p) ∧
      (mistaken 2).violations =
        (mistaken 9).violations.filter fun v => decide (v.part ≠ .facetColumns) := by
  have hsame : ∀ p, decide (p ≠ .facetColumns) = true → (mistaken 2).SamePart (mistaken 9) p := by
    intro p hp
    cases p with
    | facetColumns => exact absurd rfl (of_decide_eq_true hp)
    | sameField => exact ⟨rfl, rfl⟩
    | _ => rfl
  have hobeys : ∀ p, decide (p ≠ .facetColumns) = false → (mistaken 2).Obeys p := by
    intro p hp
    obtain rfl := not_not.mp (of_decide_eq_false hp)
    rintro f ⟨⟩ count ⟨⟩
    decide
  obtain ⟨-, -, -, hother, -⟩ := violations_by_part (mistaken 9)
  exact ⟨rfl, hsame, hobeys, ((hother (mistaken 2) rfl).2 _ hsame).2 hobeys⟩

end ChartSpec

end ChartCompiler
