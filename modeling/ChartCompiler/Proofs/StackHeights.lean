import ChartCompiler.Proofs.Double.Infinities
import ChartCompiler.Proofs.Extents
import ChartCompiler.Proofs.StableGroups

/-!
# Heights of stacks

The extent of stacked bars is that of single means and of whole stacks. A stack that grows and then
shrinks is higher on the way than at its end, and such heights are not looked at. No height is
missed where the means behind the first one of a stack all lead the same way, for then every height
lies between the first mean and the whole stack.
-/

namespace ChartCompiler

open Double Statistics

/-! ## Heights -/

def stackHeight (means : List Float) : Float :=
  means.foldl (· + ·) 0

/-- The heights of a stack with each mean that is laid on it. -/
def stackHeights (means : List Float) : List Float :=
  (means.scanl (· + ·) 0).tail

namespace Table

/-- The means that are stacked on a category, in the order of the groups. Groups without numbers are
left out. -/
def stack (rows : Table) (x group y category : String) : List Float :=
  (rows.distinctLabels group).filterMap fun key =>
    mean? (rows.numbersAtBoth x group y category key)

/-- Whole stacks and single means, over all categories. -/
def stackEnds (rows : Table) (x group y : String) : List Float :=
  (rows.distinctLabels x).flatMap fun category =>
    stackHeight (rows.stack x group y category) :: rows.stack x group y category

end Table

/-- The value lies within the extent. -/
def SeriesSet.Reaches (set : SeriesSet) (v : Float) : Prop :=
  ∃ extent, set.extent = some extent ∧ extent.1 ≤ v ∧ v ≤ extent.2

theorem Spans.reaches_iff {set : SeriesSet} {values : List Float} (hset : Spans set.extent values)
    (t : Float) : set.Reaches t ↔ (∃ v ∈ values, v ≤ t) ∧ ∃ v ∈ values, t ≤ v := by
  unfold SeriesSet.Reaches
  cases hextent : set.extent with
  | none =>
      rw [hextent] at hset
      rw [show values = [] from hset]
      simp
  | some extent =>
      rw [hextent] at hset
      constructor
      · rintro ⟨_, ⟨⟩, hlow, hhigh⟩
        exact ⟨⟨_, hset.low_mem, hlow⟩, _, hset.high_mem, hhigh⟩
      · rintro ⟨⟨v, hv, hlow⟩, w, hw, hhigh⟩
        exact ⟨extent, rfl, le_of_le_of_le (hset.low_le v hv) hlow,
          le_of_le_of_le hhigh (hset.le_high w hw)⟩

/-! ## Stacks that lead one way -/

section OneWay

variable {start : Float} {means : List Float} {R : Float → Float → Prop}

theorem mem_scanl_start : start ∈ means.scanl (· + ·) start := by
  cases means <;> simp

/-- If each mean leads on, every height lies between the first one and the last. -/
theorem between_of_steps (hrefl : ∀ h : Float, h.isNaN = false → R h h)
    (htrans : ∀ {a b c}, R a b → R b c → R a c) (hstart : start.isNaN = false)
    (hmeans : ∀ m ∈ means, m.isFinite = true)
    (hsteps : ∀ m ∈ means, ∀ h : Float, h.isNaN = false → R h (h + m)) :
    ∀ t ∈ means.scanl (· + ·) start, R start t ∧ R t (means.foldl (· + ·) start) := by
  induction means generalizing start with
  | nil =>
      intro t ht
      rw [List.scanl_nil, List.mem_singleton] at ht
      rw [ht]
      exact ⟨hrefl start hstart, hrefl start hstart⟩
  | cons m means ih =>
      obtain ⟨hm, hmeans⟩ := List.forall_mem_cons.mp hmeans
      obtain ⟨hstep, hsteps⟩ := List.forall_mem_cons.mp hsteps
      have hfirst := hstep start hstart
      have hlater := ih (isNaN_add hstart hm) hmeans hsteps
      intro t ht
      rw [List.scanl_cons, List.mem_cons] at ht
      rcases ht with rfl | ht
      · exact ⟨hrefl t hstart, htrans hfirst (hlater _ mem_scanl_start).2⟩
      · exact ⟨htrans hfirst (hlater t ht).1, (hlater t ht).2⟩

/-- The first mean has the height of the stack that it begins. -/
theorem sameValue_first {m : Float} (hm : m.isFinite = true) : SameValue (0 + m) m := by
  have hsum := rounds_add (x := 0) rfl hm
  rw [real_zero, zero_add] at hsum
  exact ⟨hsum.isNaN, isNaN_of_isFinite hm, by rw [hsum.value, value_eq_rounded hm]⟩

/-- The means behind the first one all lead up, or all lead down. -/
def LeadsOneWay (means : List Float) : Prop :=
  (∀ m ∈ means.tail, 0 ≤ m) ∨ ∀ m ∈ means.tail, m ≤ 0

theorem LeadsOneWay.between (hway : LeadsOneWay means) (hmeans : ∀ m ∈ means, m.isFinite = true)
    {t : Float} (ht : t ∈ stackHeights means) :
    (∃ v ∈ stackHeight means :: means, v ≤ t) ∧ ∃ v ∈ stackHeight means :: means, t ≤ v := by
  cases means with
  | nil => exact nomatch ht
  | cons m means =>
      obtain ⟨hm, hmeans⟩ := List.forall_mem_cons.mp hmeans
      have hfirst := sameValue_first hm
      rw [stackHeights, List.scanl_cons, List.tail_cons] at ht
      rcases hway with hup | hdown
      · obtain ⟨hlow, hhigh⟩ := between_of_steps (R := (· ≤ ·)) (fun _ => le_self)
          le_of_le_of_le hfirst.left hmeans
          (fun n hn h hh => (steps_add_of_isFinite hh (hmeans n hn)).up (hup n hn)) t ht
        exact ⟨⟨m, by simp, (hfirst.le_iff_left t).mp hlow⟩, ⟨_, List.mem_cons_self, hhigh⟩⟩
      · obtain ⟨hhigh, hlow⟩ := between_of_steps (R := (· ≥ ·)) (fun _ => le_self)
          (fun hab hbc => le_of_le_of_le hbc hab) hfirst.left hmeans
          (fun n hn h hh => (steps_add_of_isFinite hh (hmeans n hn)).down (hdown n hn)) t ht
        exact ⟨⟨_, List.mem_cons_self, hlow⟩, ⟨m, by simp, (hfirst.le_iff_right t).mp hhigh⟩⟩

end OneWay

/-! ## Heights that are added up group by group -/

/-- Groups without a mean change the height at most from one zero to the other. -/
theorem sameValue_foldl {α : Type} {mean : α → Option Float} {keys : List α}
    (hmeans : ∀ key ∈ keys, ∀ m ∈ mean key, m.isFinite = true) {a b : Float}
    (hab : SameValue a b) :
    SameValue (keys.foldl (fun height key => height + (mean key).getD 0) a)
      ((keys.filterMap mean).foldl (· + ·) b) := by
  induction keys generalizing a b with
  | nil => exact hab
  | cons key keys ih =>
      obtain ⟨hkey, hkeys⟩ := List.forall_mem_cons.mp hmeans
      rw [List.foldl_cons, List.filterMap_cons]
      cases hmean : mean key with
      | none =>
          have hzero := sameValue_add_zero hab.left
          exact ih hkeys ⟨hzero.left, hab.right, hzero.value.trans hab.value⟩
      | some m => exact ih hkeys (hab.add (hkey m hmean))

namespace SeriesRequest

theorem foldl_stackOnto (categories : List String) (mean : String → String → Option Float)
    (keys : List String) (start : String → Float) :
    (keys.map fun key => categories.map (mean key)).foldl stackOnto (categories.map start) =
      categories.map fun category =>
        keys.foldl (fun height key => height + (mean key category).getD 0) (start category) := by
  induction keys generalizing start with
  | nil => rfl
  | cons key keys ih =>
      rw [List.map_cons, List.foldl_cons, stackOnto, List.zipWith_map, List.zipWith_self, ih]
      rfl

variable (request : SeriesRequest) (group : FieldDef) (rows : Table)

theorem groupMeans_eq (categories : List String) (key : String) :
    request.groupMeans group rows categories key = categories.map fun category =>
      mean? (rows.numbersAtBoth request.x.field group.field request.y.field category key) := by
  rw [groupMeans, meansFor_groupValues]
  simp only [Table.numbersAt_withLabel]

/-- What the extent of stacked bars is that of: the heights added up over the groups, then the
means. -/
def stackedValues : List Float :=
  let categories := rows.distinctLabels request.x.field
  let keys := rows.distinctLabels group.field
  let mean := fun key category =>
    mean? (rows.numbersAtBoth request.x.field group.field request.y.field category key)
  (categories.map fun category =>
    keys.foldl (fun height key => height + (mean key category).getD 0) 0) ++
    (keys.map fun key => categories.map (mean key)).flatten.filterMap id

theorem mem_singleMeans_iff {v : Float} :
    v ∈ ((rows.distinctLabels group.field).map fun key =>
      (rows.distinctLabels request.x.field).map fun category => mean? (rows.numbersAtBoth
        request.x.field group.field request.y.field category key)).flatten.filterMap id ↔
      ∃ key ∈ rows.distinctLabels group.field, ∃ category ∈ rows.distinctLabels request.x.field,
        mean? (rows.numbersAtBoth request.x.field group.field request.y.field category key) =
          some v := by
  simp only [List.mem_filterMap, List.mem_flatten, List.mem_map, id_eq, exists_eq_right,
    exists_exists_and_eq_and]

theorem extent_groupedSeries (hstacked : request.chartType = .stackedBar) :
    (request.groupedSeries group rows).extent = extent? (request.stackedValues group rows) := by
  have hstart : List.replicate (rows.distinctLabels request.x.field).length (0 : Float) =
      (rows.distinctLabels request.x.field).map fun _ => 0 := (List.map_const' ..).symm
  have hmeans : (rows.distinctLabels group.field).map (request.groupMeans group rows
      (rows.distinctLabels request.x.field)) = (rows.distinctLabels group.field).map fun key =>
        (rows.distinctLabels request.x.field).map fun category =>
          mean? (rows.numbersAtBoth request.x.field group.field request.y.field category key) :=
    List.map_congr_left fun key _ => request.groupMeans_eq group rows _ key
  unfold groupedSeries stackedValues
  dsimp only
  rw [if_pos hstacked, hmeans, hstart, foldl_stackOnto]

section Finite

variable (hfinite : ∀ category ∈ rows.distinctLabels request.x.field,
  ∀ m ∈ rows.stack request.x.field group.field request.y.field category, m.isFinite = true)
include hfinite

theorem sameValue_height {category : String}
    (hcategory : category ∈ rows.distinctLabels request.x.field) :
    SameValue ((rows.distinctLabels group.field).foldl (fun height key => height +
        (mean? (rows.numbersAtBoth request.x.field group.field request.y.field category key)).getD
          0) 0)
      (stackHeight (rows.stack request.x.field group.field request.y.field category)) :=
  sameValue_foldl (fun key hkey m hm => hfinite category hcategory m
    (List.mem_filterMap.mpr ⟨key, hkey, hm⟩)) ⟨rfl, rfl, rfl⟩

theorem exists_stackEnd {v : Float} (hv : v ∈ request.stackedValues group rows) :
    ∃ w ∈ rows.stackEnds request.x.field group.field request.y.field, SameValue v w := by
  rcases List.mem_append.mp hv with hheight | hmean
  · obtain ⟨category, hcategory, rfl⟩ := List.mem_map.mp hheight
    exact ⟨_, List.mem_flatMap.mpr ⟨category, hcategory, List.mem_cons_self⟩,
      request.sameValue_height group rows hfinite hcategory⟩
  · obtain ⟨key, hkey, category, hcategory, hmean⟩ :=
      (request.mem_singleMeans_iff group rows).mp hmean
    have hmem : v ∈ rows.stack request.x.field group.field request.y.field category :=
      List.mem_filterMap.mpr ⟨key, hkey, hmean⟩
    have hnumber := isNaN_of_isFinite (hfinite category hcategory v hmem)
    exact ⟨v, List.mem_flatMap.mpr ⟨category, hcategory, List.mem_cons_of_mem _ hmem⟩,
      hnumber, hnumber, rfl⟩

theorem exists_stackedValue {w : Float}
    (hw : w ∈ rows.stackEnds request.x.field group.field request.y.field) :
    ∃ v ∈ request.stackedValues group rows, SameValue v w := by
  obtain ⟨category, hcategory, hends⟩ := List.mem_flatMap.mp hw
  rcases List.mem_cons.mp hends with rfl | hmem
  · exact ⟨_, List.mem_append_left _ (List.mem_map.mpr ⟨category, hcategory, rfl⟩),
      request.sameValue_height group rows hfinite hcategory⟩
  · obtain ⟨key, hkey, hmean⟩ := List.mem_filterMap.mp hmem
    have hnumber := isNaN_of_isFinite (hfinite category hcategory w hmem)
    exact ⟨w, List.mem_append_right _ ((request.mem_singleMeans_iff group rows).mpr
      ⟨key, hkey, category, hcategory, hmean⟩), hnumber, hnumber, rfl⟩

/-- Reached is what lies between two of the ends of stacks. -/
theorem reaches_groupedSeries_iff (hstacked : request.chartType = .stackedBar) (t : Float) :
    (request.groupedSeries group rows).Reaches t ↔
      (∃ v ∈ rows.stackEnds request.x.field group.field request.y.field, v ≤ t) ∧
        ∃ v ∈ rows.stackEnds request.x.field group.field request.y.field, t ≤ v := by
  have hspans : Spans (request.groupedSeries group rows).extent
      (request.stackedValues group rows) := by
    rw [request.extent_groupedSeries group rows hstacked]
    refine spans_extent? fun v hv => ?_
    obtain ⟨w, -, hsame⟩ := request.exists_stackEnd group rows hfinite hv
    exact hsame.left
  rw [hspans.reaches_iff]
  constructor
  · rintro ⟨⟨a, ha, hlow⟩, b, hb, hhigh⟩
    obtain ⟨v, hv, hav⟩ := request.exists_stackEnd group rows hfinite ha
    obtain ⟨w, hw, hbw⟩ := request.exists_stackEnd group rows hfinite hb
    exact ⟨⟨v, hv, (hav.le_iff_left t).mp hlow⟩, w, hw, (hbw.le_iff_right t).mp hhigh⟩
  · rintro ⟨⟨v, hv, hlow⟩, w, hw, hhigh⟩
    obtain ⟨a, ha, hav⟩ := request.exists_stackedValue group rows hfinite hv
    obtain ⟨b, hb, hbw⟩ := request.exists_stackedValue group rows hfinite hw
    exact ⟨⟨a, ha, (hav.le_iff_left t).mpr hlow⟩, b, hb, (hbw.le_iff_right t).mpr hhigh⟩

end Finite

/-- Stacked bars have the extent of single means and whole stacks, and so every height of a stack
lies within it whose means behind the first one lead one way. -/
theorem build_reaches_stacks {request : SeriesRequest} {group : FieldDef}
    (hstacked : request.chartType = .stackedBar) (hgroup : request.group = some group)
    (rows : Table) (hfinite : ∀ category ∈ rows.distinctLabels request.x.field,
      ∀ m ∈ rows.stack request.x.field group.field request.y.field category, m.isFinite = true) :
    (∀ t, (request.build rows).Reaches t ↔
      (∃ v ∈ rows.stackEnds request.x.field group.field request.y.field, v ≤ t) ∧
        ∃ v ∈ rows.stackEnds request.x.field group.field request.y.field, t ≤ v) ∧
      ∀ category ∈ rows.distinctLabels request.x.field,
        LeadsOneWay (rows.stack request.x.field group.field request.y.field category) →
          ∀ t ∈ stackHeights (rows.stack request.x.field group.field request.y.field category),
            (request.build rows).Reaches t := by
  have hmeans : request.chartType.showsMeans = true := by rw [hstacked]; rfl
  have hbuild : request.build rows = request.groupedSeries group rows := by
    rw [build_eq_categorySeries hmeans, categorySeries, hgroup]
  rw [hbuild]
  have hreaches := request.reaches_groupedSeries_iff group rows hfinite hstacked
  refine ⟨hreaches, fun category hcategory hway t ht => (hreaches t).mpr ?_⟩
  obtain ⟨⟨v, hv, hlow⟩, w, hw, hhigh⟩ := hway.between (hfinite category hcategory) ht
  exact ⟨⟨v, List.mem_flatMap.mpr ⟨category, hcategory, hv⟩, hlow⟩,
    w, List.mem_flatMap.mpr ⟨category, hcategory, hw⟩, hhigh⟩

theorem build_reaches_stacks_quarterly :
    stackHeights (quarterlySales.stack "region" "quarter" "sales" "North") = [10, 40] ∧
      (quarterly.build quarterlySales).Reaches 40 := by
  have hheights : stackHeights (quarterlySales.stack "region" "quarter" "sales" "North") =
      [10, 40] := by decide +kernel
  have hstacked : quarterly.chartType = .stackedBar := rfl
  have hreaches := (build_reaches_stacks hstacked rfl quarterlySales (by decide +kernel)).2
    "North" (by decide +kernel) (.inl (by decide +kernel))
  exact ⟨hheights, hreaches 40 (hheights ▸ List.mem_cons_of_mem 10 List.mem_cons_self)⟩

/-- Sales of two quarters, and what was taken back in the third. -/
def returnedSales : Table :=
  [[("quarter", .string "Q1"), ("region", .string "North"), ("sales", .number (.integer 10))],
    [("quarter", .string "Q2"), ("region", .string "North"), ("sales", .number (.integer 10))],
    [("quarter", .string "Q3"), ("region", .string "North"), ("sales", .number (.integer (-15)))]]

/-- The stack is 20 high before it shrinks, and the extent ends at 10. -/
theorem build_misses_height :
    returnedSales.stack "region" "quarter" "sales" "North" = [10, 10, -15] ∧
      stackHeights (returnedSales.stack "region" "quarter" "sales" "North") = [10, 20, 5] ∧
      ¬(quarterly.build returnedSales).Reaches 20 := by
  have hextent : (quarterly.build returnedSales).extent = some (-15, 10) := by decide +kernel
  refine ⟨by decide +kernel, by decide +kernel, ?_⟩
  rintro ⟨extent, hsome, -, hhigh⟩
  rw [hextent] at hsome
  cases hsome
  exact absurd hhigh (by decide +kernel)

end SeriesRequest

end ChartCompiler
