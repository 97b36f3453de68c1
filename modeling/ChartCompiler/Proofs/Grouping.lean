import ChartCompiler.Plot.Series
import ChartCompiler.Proofs.FirstSeen
import Mathlib.Data.List.Basic

/-!
# Groups against filters

A grouping is filled in one pass over the rows. Read as a whole it has one
group for each key in the order of `firstSeen`, and each group holds what a
filter for its key would find. The means of a chart follow from that: they do
not depend on which list of categories the groups were filled along.
-/

namespace ChartCompiler

open Statistics

namespace Groups

variable {α β : Type}

/-- The groups of the items that have a key, filled in one pass. -/
def collect (key : β → Option String) (values : β → List α) (items : List β) :
    Groups α :=
  items.foldl (fun groups item =>
    match key item with
    | none => groups
    | some k => groups.add k (values item)) []

theorem collect_append_singleton (key : β → Option String)
    (values : β → List α) (items : List β) (item : β) :
    collect key values (items ++ [item]) =
      match key item with
      | none => collect key values items
      | some k => (collect key values items).add k (values item) := by
  unfold collect
  rw [List.foldl_append, List.foldl_cons, List.foldl_nil]

/-- The values of the items with one key, in the order of the items. -/
def valuesOf (key : β → Option String) (values : β → List α) (items : List β)
    (k : String) : List α :=
  (items.filter fun item => key item = some k).flatMap values

theorem valuesOf_append_singleton (key : β → Option String)
    (values : β → List α) (items : List β) (item : β) (k : String) :
    valuesOf key values (items ++ [item]) k =
      if key item = some k then valuesOf key values items k ++ values item
      else valuesOf key values items k := by
  unfold valuesOf
  rw [List.filter_append, List.flatMap_append]
  by_cases hkey : key item = some k
  · simp [hkey]
  · simp [hkey]

theorem valuesOf_eq_nil_of_notMem (key : β → Option String)
    (values : β → List α) {items : List β} {k : String}
    (habsent : k ∉ firstSeen key items) : valuesOf key values items k = [] := by
  have hnone : (items.filter fun item => key item = some k) = [] := by
    apply List.filter_eq_nil_iff.mpr
    intro item hitem hkey
    exact habsent ((mem_firstSeen_iff key items k).mpr
      ⟨item, hitem, of_decide_eq_true hkey⟩)
  rw [valuesOf, hnone, List.flatMap_nil]

/-- Adding to groups that are listed by their keys changes the one group, and
lists a new key last. -/
theorem add_map (key : String) (values : List α) (f : String → List α)
    {keys : List String} (hnodup : keys.Nodup)
    (hfresh : key ∉ keys → f key = []) :
    add key values (keys.map fun k => (k, f k)) =
      (if key ∈ keys then keys else keys ++ [key]).map fun k =>
        (k, if key = k then f k ++ values else f k) := by
  induction keys with
  | nil => simp [add, hfresh]
  | cons head rest ih =>
      obtain ⟨hhead, hrest⟩ := List.nodup_cons.mp hnodup
      by_cases hsame : head = key
      · subst hsame
        have hothers : (rest.map fun k => (k, f k)) =
            rest.map fun k => (k, if head = k then f k ++ values else f k) := by
          apply List.map_congr_left
          intro k hk
          rw [if_neg fun heq : head = k => hhead (heq ▸ hk)]
        simp [add, hothers]
      · have hlater := ih hrest fun habsent => hfresh (by
          simp [habsent, Ne.symm hsame])
        by_cases hmem : key ∈ rest
        · simp [add, hsame, Ne.symm hsame, hmem, hlater]
        · simp [add, hsame, Ne.symm hsame, hmem, hlater]

/-- The pass gives each key, where it is first seen, the values of its items. -/
theorem collect_eq_map (key : β → Option String) (values : β → List α)
    (items : List β) :
    collect key values items =
      (firstSeen key items).map fun k => (k, valuesOf key values items k) := by
  induction items using List.reverseRecOn with
  | nil => rfl
  | append_singleton items item ih =>
      rw [collect_append_singleton, ih, firstSeen_append_singleton]
      simp only [valuesOf_append_singleton]
      cases hkey : key item with
      | none => simp
      | some k =>
          have hadd := add_map k (values item) (valuesOf key values items)
            (nodup_firstSeen key items) (valuesOf_eq_nil_of_notMem key values)
          simpa only [Option.some.injEq] using hadd

section Split

variable (key : β → String) (items : List β)

def split : Groups β :=
  collect (fun item => some (key item)) (fun item => [item]) items

theorem split_eq_map :
    split key items = (firstSeen (fun item => some (key item)) items).map fun k =>
      (k, items.filter fun item => key item = k) := by
  rw [split, collect_eq_map]
  simp only [valuesOf, List.flatMap_singleton', Option.some.injEq]

theorem keys_split :
    (split key items).keys = firstSeen (fun item => some (key item)) items := by
  rw [split_eq_map, keys, List.map_map]
  exact List.map_id _

end Split

end Groups

namespace Table

/-- The numbers of field `y` in the rows that field `x` gives a label. -/
def numbersAt (rows : Table) (x y label : String) : List Float :=
  (rows.withLabel x label).filterMap (·.number? y)

theorem groupValues_eq_collect (rows : Table) (x y : String) :
    rows.groupValues x y =
      Groups.collect (·.label? x) (fun row => (row.number? y).toList) rows := by
  unfold groupValues Groups.collect
  congr 1

/-- Each label is paired with the numbers of its rows. -/
theorem groupValues_eq_map (rows : Table) (x y : String) :
    rows.groupValues x y =
      (rows.distinctLabels x).map fun label => (label, rows.numbersAt x y label) := by
  rw [groupValues_eq_collect, Groups.collect_eq_map, distinctLabels_eq_firstSeen]
  simp only [Groups.valuesOf, ← List.filterMap_eq_flatMap_toList]
  rfl

@[simp]
theorem keys_groupValues (rows : Table) (x y : String) :
    (rows.groupValues x y).keys = rows.distinctLabels x := by
  rw [groupValues_eq_map, Groups.keys, List.map_map]
  exact List.map_id _

theorem nodup_distinctLabels (rows : Table) (x : String) :
    (rows.distinctLabels x).Nodup := by
  rw [distinctLabels_eq_firstSeen]
  exact nodup_firstSeen _ rows

theorem numbersAt_eq_nil_of_notMem {rows : Table} {x label : String}
    (habsent : label ∉ rows.distinctLabels x) (y : String) :
    rows.numbersAt x y label = [] := by
  rw [distinctLabels_eq_firstSeen] at habsent
  have hnone := Groups.valuesOf_eq_nil_of_notMem (fun row : Row => row.label? x)
    (fun row => (row.number? y).toList) habsent
  rwa [Groups.valuesOf, ← List.filterMap_eq_flatMap_toList] at hnone

end Table

def Row.partLabel (field : String) (row : Row) : String :=
  (row.label? field).getD Table.emptyKey

namespace Table

theorem partition_eq_split (rows : Table) (field : String) :
    rows.partition field = Groups.split (Row.partLabel field) rows :=
  rfl

/-- The parts of a table stand in the order in which their labels are first seen. -/
theorem keys_partition (rows : Table) (field : String) :
    (rows.partition field).keys = firstSeen some (rows.map (Row.partLabel field)) := by
  rw [partition_eq_split, Groups.keys_split]
  unfold firstSeen
  rw [List.foldl_map]

/-- There are no more parts than rows. -/
theorem length_partition_le (rows : Table) (field : String) :
    (rows.partition field).length ≤ rows.length := by
  have hlength : (rows.partition field).length = (rows.partition field).keys.length :=
    (List.length_map _).symm
  rw [hlength, keys_partition, ← List.length_map (Row.partLabel field)]
  exact length_firstSeen_some_le _

end Table

/-- The mean of a category is the mean of the numbers in its rows, whatever the
list of categories. -/
theorem meansFor_groupValues (categories : List String) (rows : Table)
    (x y : String) :
    meansFor categories (rows.groupValues x y) =
      categories.map fun category => mean? (rows.numbersAt x y category) := by
  unfold meansFor
  apply List.map_congr_left
  intro category _
  rw [Table.groupValues_eq_map]
  by_cases hmem : category ∈ rows.distinctLabels x
  · rw [List.lookup_graph _ hmem, Option.bind_some]
  · rw [Table.numbersAt_eq_nil_of_notMem hmem,
      List.lookup_eq_none_iff.mpr, Option.bind_none]
    · rfl
    · intro entry hentry
      obtain ⟨label, hlabel, rfl⟩ := List.mem_map.mp hentry
      exact bne_iff_ne.mpr fun heq : category = label =>
        hmem (heq ▸ hlabel)

/-- A point for each category is a map over the categories. -/
theorem categoryPoints_map (categories : List String)
    (f : String → Option Float) :
    categoryPoints categories (categories.map f) =
      categories.map fun category => [.text category, .ofNumber? (f category)] := by
  unfold categoryPoints
  rw [List.zipWith_map_right, List.zipWith_self]

/-! ## Charts of means -/

/-- The points of a chart of means: one for each category, with a gap where the
category has no numbers. -/
def Table.meanPoints (rows : Table) (x y : String) : List Point :=
  (rows.distinctLabels x).map fun category =>
    [.text category, .ofNumber? (mean? (rows.numbersAt x y category))]

theorem categoryPoints_groupValues (rows : Table) (x y : String) :
    categoryPoints (rows.distinctLabels x)
      (meansFor (rows.distinctLabels x) (rows.groupValues x y)) =
      rows.meanPoints x y := by
  rw [meansFor_groupValues, categoryPoints_map]
  rfl

def ChartType.showsMeans : ChartType → Bool
  | bar | groupedBar | stackedBar | line | area | errorBar => true
  | scatter | histogram | boxplot | violin => false

namespace SeriesRequest

theorem series_wholeSeries (request : SeriesRequest) (rows : Table) :
    (request.wholeSeries rows).series =
      [request.series request.chartType.mark request.y.displayName
        (rows.meanPoints request.x.field request.y.field)] := by
  unfold wholeSeries
  simp only [Table.keys_groupValues, categoryPoints_groupValues]

theorem categories_wholeSeries (request : SeriesRequest) (rows : Table) :
    (request.wholeSeries rows).categories =
      some (rows.distinctLabels request.x.field) := by
  unfold wholeSeries
  simp only [Table.keys_groupValues]

/-- Where a group splits the rows, each of its labels has a series over the
categories of all rows. -/
theorem series_groupedSeries (request : SeriesRequest) (group : FieldDef)
    (rows : Table) :
    (request.groupedSeries group rows).series =
      (rows.distinctLabels group.field).map fun key =>
        request.series request.chartType.mark key
          (categoryPoints (rows.distinctLabels request.x.field)
            (request.groupMeans group rows (rows.distinctLabels request.x.field) key)) := by
  simp only [groupedSeries, List.zipWith_map_right, List.zipWith_self]

theorem build_eq_categorySeries {request : SeriesRequest}
    (hmeans : request.chartType.showsMeans = true) (rows : Table) :
    request.build rows = request.categorySeries rows := by
  cases request with
  | mk chartType x y group trendline =>
      cases chartType <;> first | rfl | cases hmeans

/-- Where means are shown and no group splits the rows, there is one series. -/
theorem build_eq_wholeSeries {request : SeriesRequest}
    (hmeans : request.chartType.showsMeans = true) (hgroup : request.group = none)
    (rows : Table) : request.build rows = request.wholeSeries rows := by
  rw [build_eq_categorySeries hmeans, categorySeries, hgroup]

end SeriesRequest

end ChartCompiler
