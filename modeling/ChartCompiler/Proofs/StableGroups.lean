import ChartCompiler.Proofs.CheckedCompile
import ChartCompiler.Proofs.Conservation

/-!
# Grouping is stable

Three passes over the rows group them by label: the numbers behind the categories of a chart, the
means of a chart whose rows are split by colour, and the parts of a table behind small multiples.
Each is a list over the labels in the order in which they are first seen, and what stands at a label
is what a filter for it finds, in the order of the rows. The passes that find a group by its slot
come to the same and fail nowhere. Rows without a label have a part of their own unless a label is
spelled like the key of that part.
-/

namespace ChartCompiler

open Statistics

theorem listsFirstSeen_distinctLabels (rows : Table) (field : String) :
    ListsFirstSeen (·.label? field) rows (rows.distinctLabels field) := by
  rw [distinctLabels_eq_firstSeen]
  exact listsFirstSeen_firstSeen _ rows

/-! ## Numbers by label -/

namespace Table

theorem filterMap_withLabel {α : Type} (rows : Table) (field label : String)
    (read : Row → Option α) :
    (rows.withLabel field label).filterMap read =
      rows.filterMap fun row => if row.label? field = some label then read row else none := by
  rw [withLabel, List.filterMap_filter]
  simp only [decide_eq_true_eq]

/-- Each label of field `x` with the numbers of field `y` in exactly the rows that have it. -/
def numbersByLabel (rows : Table) (x y : String) : Groups Float :=
  (rows.distinctLabels x).map fun label =>
    (label, rows.filterMap fun row => if row.label? x = some label then row.number? y else none)

/-- One pass over the rows finds the numbers of each label, also where it finds groups by slot. -/
theorem groupValues_eq_numbersByLabel (rows : Table) (x y : String) :
    rows.groupValues x y = rows.numbersByLabel x y ∧
      Checked.groupValues rows x y = some (rows.numbersByLabel x y) := by
  have hpass : rows.groupValues x y = rows.numbersByLabel x y := by
    rw [groupValues_eq_map, numbersByLabel]
    simp only [numbersAt, filterMap_withLabel]
  exact ⟨hpass, by rw [Checked.groupValues_eq, hpass]⟩

end Table

/-! ## Means by two labels -/

/-- The numbers of field `y` in exactly the rows with both labels. -/
def Table.numbersAtBoth (rows : Table) (x group y category key : String) : List Float :=
  rows.filterMap fun row =>
    if row.label? x = some category ∧ row.label? group = some key then row.number? y else none

theorem Table.numbersAt_withLabel (rows : Table) (x group y category key : String) :
    (rows.withLabel group key).numbersAt x y category =
      rows.numbersAtBoth x group y category key := by
  rw [numbersAt, filterMap_withLabel, filterMap_withLabel, numbersAtBoth]
  congr 1
  funext row
  split_ifs <;> tauto

/-- The mean of numbers from left to right, or a gap if there are none. -/
def Datum.meanOf (numbers : List Float) : Datum :=
  if numbers = [] then .gap else .number (sum numbers / size numbers)

theorem Datum.ofNumber?_mean? (numbers : List Float) :
    ofNumber? (mean? numbers) = meanOf numbers := by
  cases numbers <;> rfl

namespace SeriesRequest

/-- One series for each label of the group, in the order in which these are first seen, and each has
a point for every category of all rows: the mean over the rows with both labels. -/
structure IsPivot (request : SeriesRequest) (group : FieldDef) (rows : Table) (set : SeriesSet) :
    Prop where
  categories : set.categories = some (rows.distinctLabels request.x.field)
  names : set.series.map Series.name = rows.distinctLabels group.field
  order : ListsFirstSeen (·.label? group.field) rows (set.series.map Series.name)
  points : ∀ s ∈ set.series, s.data = (rows.distinctLabels request.x.field).map fun category =>
    [.text category, .meanOf (rows.numbersAtBoth request.x.field group.field request.y.field
      category s.name)]

/-- Rows that are split by colour are pivoted, also where groups are found by slot. -/
theorem build_isPivot {request : SeriesRequest} {group : FieldDef}
    (hgroup : request.group = some group) (hmeans : request.chartType.showsMeans = true)
    (rows : Table) :
    request.IsPivot group rows (request.build rows) ∧
      Checked.build request rows = some (request.build rows) := by
  refine ⟨?_, Checked.build_eq request rows⟩
  have hbuild : request.build rows = request.groupedSeries group rows := by
    rw [build_eq_categorySeries hmeans, categorySeries, hgroup]
  have hseries := request.series_groupedSeries group rows
  have hnames : (request.groupedSeries group rows).series.map Series.name =
      rows.distinctLabels group.field := by
    rw [hseries, List.map_map]
    exact List.map_id _
  rw [hbuild]
  refine ⟨rfl, hnames, ?_, fun s hs => ?_⟩
  · rw [hnames]
    exact listsFirstSeen_distinctLabels rows group.field
  · rw [hseries] at hs
    obtain ⟨key, -, rfl⟩ := List.mem_map.mp hs
    change categoryPoints _ (request.groupMeans group rows _ key) = _
    rw [groupMeans, meansFor_groupValues, categoryPoints_map]
    simp only [Table.numbersAt_withLabel, Datum.ofNumber?_mean?]
    rfl

/-- Sales of two quarters, stacked by region. -/
def quarterly : SeriesRequest where
  chartType := .stackedBar
  x := { field := "region", type := .nominal, title := none }
  y := { field := "sales", type := .quantitative, title := none }
  group := some { field := "quarter", type := .nominal, title := none }
  trendline := false

/-- The east has no sales in the first quarter, and one sale belongs to no quarter. -/
def quarterlySales : Table :=
  [[("quarter", .string "Q1"), ("region", .string "North"), ("sales", .number (.integer 10))],
    [("quarter", .string "Q2"), ("region", .string "North"), ("sales", .number (.integer 30))],
    [("quarter", .string "Q2"), ("region", .string "East"), ("sales", .number (.integer 5))],
    [("region", .string "South"), ("sales", .number (.integer 7))]]

/-- The north sells once more in the second quarter. -/
def moreSales : Table :=
  quarterlySales ++ [[("quarter", .string "Q2"), ("region", .string "North"),
    ("sales", .number (.integer 21))]]

theorem build_isPivot_quarterly :
    quarterly.IsPivot { field := "quarter", type := .nominal, title := none } moreSales
      (quarterly.build moreSales) ∧
    (quarterly.build moreSales).series.map Series.name = ["Q1", "Q2"] ∧
    ∀ s ∈ (quarterly.build moreSales).series, s.name = "Q2" →
      s.data = [[.text "North", .number 25.5], [.text "East", .number 5],
        [.text "South", .gap]] := by
  have hpivot := (@build_isPivot quarterly _ rfl rfl moreSales).1
  refine ⟨hpivot, by decide +kernel, fun s hs hname => ?_⟩
  have hregions : moreSales.distinctLabels "region" = ["North", "East", "South"] := by
    decide +kernel
  have hnorth : moreSales.numbersAtBoth "region" "quarter" "sales" "North" "Q2" =
      [30, 21] := by
    decide +kernel
  have heast : moreSales.numbersAtBoth "region" "quarter" "sales" "East" "Q2" = [5] := by
    decide +kernel
  have hsouth : moreSales.numbersAtBoth "region" "quarter" "sales" "South" "Q2" = [] := by
    decide +kernel
  have hmean (numbers : List Float) {m : Option Float} (hm : mean? numbers = m) :
      Datum.meanOf numbers = .ofNumber? m :=
    hm ▸ (Datum.ofNumber?_mean? numbers).symm
  rw [hpivot.points s hs, hname]
  dsimp only [quarterly]
  rw [hregions, List.map_cons, List.map_cons, List.map_cons, hnorth, heast, hsouth,
    hmean [30, 21] (m := some 25.5) (by decide +kernel),
    hmean [5] (m := some 5) (by decide +kernel), hmean [] (m := none) rfl]
  rfl

end SeriesRequest

/-! ## Parts of a table -/

/-- Items grouped by a key that each of them has: one group for each key, in the order in which the
keys are first seen, with exactly the items of this key in their order. -/
structure IsStableGrouping {α : Type} (key : α → String) (items : List α) (groups : Groups α) :
    Prop where
  keys : ListsFirstSeen (fun item => some (key item)) items groups.keys
  group : ∀ g ∈ groups, g.2 = items.filter fun item => key item = g.1
  nonempty : ∀ g ∈ groups, g.2 ≠ []
  once : ∀ item ∈ items, ∃! g, g ∈ groups ∧ item ∈ g.2
  conserves : (groups.flatMap Prod.snd).Perm items

namespace Groups

variable {α : Type} {key : α → String} {items : List α}

theorem snd_of_mem_split {g : String × List α} (hg : g ∈ split key items) :
    g.2 = items.filter fun item => key item = g.1 := by
  rw [split_eq_map] at hg
  obtain ⟨k, -, rfl⟩ := List.mem_map.mp hg
  rfl

theorem mem_snd_iff_of_mem_split {g : String × List α} (hg : g ∈ split key items) {item : α} :
    item ∈ g.2 ↔ item ∈ items ∧ key item = g.1 := by
  rw [snd_of_mem_split hg, List.mem_filter, decide_eq_true_eq]

/-- Each key has one group. -/
theorem eq_of_mem_split {g other : String × List α} (hg : g ∈ split key items)
    (hother : other ∈ split key items) (hkey : other.1 = g.1) : other = g := by
  rw [Prod.ext_iff, snd_of_mem_split hother, snd_of_mem_split hg, hkey]
  exact ⟨rfl, rfl⟩

variable (key items)

theorem isStableGrouping_split : IsStableGrouping key items (split key items) where
  keys := by
    rw [keys_split]
    exact listsFirstSeen_firstSeen _ items
  group _ hg := snd_of_mem_split hg
  nonempty g hg := by
    have hkey : g.1 ∈ firstSeen (fun item => some (key item)) items := by
      rw [← keys_split]
      exact List.mem_map_of_mem hg
    obtain ⟨item, hitem, hsame⟩ := (mem_firstSeen_iff _ items g.1).mp hkey
    exact List.ne_nil_of_mem ((mem_snd_iff_of_mem_split hg).mpr ⟨hitem, Option.some.inj hsame⟩)
  once item hitem := by
    have hlisted : key item ∈ (split key items).keys := by
      rw [keys_split]
      exact (mem_firstSeen_iff _ items _).mpr ⟨item, hitem, rfl⟩
    obtain ⟨g, hg, hkey⟩ := List.mem_map.mp hlisted
    refine ⟨g, ⟨hg, (mem_snd_iff_of_mem_split hg).mpr ⟨hitem, hkey.symm⟩⟩, ?_⟩
    rintro other ⟨hother, hin⟩
    have hsame := ((mem_snd_iff_of_mem_split hother).mp hin).2
    exact eq_of_mem_split hg hother (hsame.symm.trans hkey.symm)
  conserves := flatMap_snd_split key items

end Groups

/-- A row is in the part of its label, or in the one of the empty label if the field is null or
missing. -/
theorem Row.partLabel_cases (row : Row) (field : String) :
    ((row.get? field = none ∨ row.get? field = some .null) ∧ row.partLabel field = "(empty)") ∨
      row.label? field = some (row.partLabel field) := by
  unfold partLabel label?
  split
  · next hmissing => exact .inl ⟨.inl hmissing, rfl⟩
  · next hnull => exact .inl ⟨.inr hnull, rfl⟩
  all_goals exact .inr rfl

/-- Splitting a table is a stable grouping by label, also where it finds parts by slot. -/
theorem Table.partition_isStableGrouping (rows : Table) (field : String) :
    IsStableGrouping (Row.partLabel field) rows (rows.partition field) ∧
      Checked.partition rows field = some (rows.partition field) ∧
      ∀ row : Row,
        ((row.get? field = none ∨ row.get? field = some .null) ∧
          row.partLabel field = "(empty)") ∨
        row.label? field = some (row.partLabel field) := by
  refine ⟨?_, Checked.partition_eq rows field, fun row => row.partLabel_cases field⟩
  rw [partition_eq_split]
  exact Groups.isStableGrouping_split (Row.partLabel field) rows

/-! ## Rows without a value -/

/-- The row has no value in the field: there is no cell, or the cell is null. -/
def Row.Lacks (row : Row) (field : String) : Prop :=
  row.get? field = none ∨ row.get? field = some .null

theorem Row.label?_eq_none_iff (row : Row) (field : String) :
    row.label? field = none ↔ row.Lacks field := by
  unfold label? Lacks
  split <;> simp_all

/-- Rows without a value are in the part of the empty label. -/
theorem Row.Lacks.partLabel_eq {row : Row} {field : String} (h : row.Lacks field) :
    row.partLabel field = "(empty)" := by
  rw [Row.partLabel, (row.label?_eq_none_iff field).mpr h]
  rfl

theorem Row.label?_of_partLabel_eq {row : Row} {field : String} (hvalue : ¬row.Lacks field)
    (hpart : row.partLabel field = "(empty)") : row.label? field = some "(empty)" := by
  rcases row.partLabel_cases field with ⟨hmissing, -⟩ | hlabel
  · exact absurd hmissing hvalue
  · rw [hlabel, hpart]

namespace Table

theorem mem_part_iff {rows : Table} {field : String} {part : String × List Row}
    (hpart : part ∈ rows.partition field) {row : Row} :
    row ∈ part.2 ↔ row ∈ rows ∧ row.partLabel field = part.1 := by
  rw [partition_eq_split] at hpart
  exact Groups.mem_snd_iff_of_mem_split hpart

theorem exists_part {rows : Table} {row : Row} (hrow : row ∈ rows) (field : String) :
    ∃ part ∈ rows.partition field, row ∈ part.2 := by
  rw [partition_eq_split]
  obtain ⟨part, hpart, -⟩ := (Groups.isStableGrouping_split _ rows).once row hrow
  exact ⟨part, hpart⟩

/-- Only rows with the label `(empty)` share a part with rows that have no value. So rows without a
value stay apart from all others exactly if there are none, or no row has this label. -/
theorem partition_separates_iff (rows : Table) (field : String) :
    (∀ part ∈ rows.partition field, (∃ row ∈ part.2, row.Lacks field) →
      ∀ other ∈ part.2, other.Lacks field ∨ other.label? field = some "(empty)") ∧
    ((∀ part ∈ rows.partition field, (∃ row ∈ part.2, row.Lacks field) →
        ∀ other ∈ part.2, other.Lacks field) ↔
      ((∃ row ∈ rows, row.Lacks field) →
        ∀ other ∈ rows, other.label? field ≠ some "(empty)")) := by
  have hmixed : ∀ part ∈ rows.partition field, (∃ row ∈ part.2, row.Lacks field) →
      ∀ other ∈ part.2, other.Lacks field ∨ other.label? field = some "(empty)" := by
    rintro part hpart ⟨row, hrow, hlacks⟩ other hother
    have hkey := ((mem_part_iff hpart).mp hrow).2
    have hsame := ((mem_part_iff hpart).mp hother).2
    rw [hlacks.partLabel_eq] at hkey
    rw [← hkey] at hsame
    exact or_iff_not_imp_left.mpr fun hvalue => Row.label?_of_partLabel_eq hvalue hsame
  refine ⟨hmixed, fun hapart => ?_, fun hlabels part hpart hrow other hother => ?_⟩
  · rintro ⟨row, hrow, hlacks⟩ other hother hlabel
    obtain ⟨part, hpart, hin⟩ := exists_part hrow field
    have hkey := ((mem_part_iff hpart).mp hin).2
    rw [hlacks.partLabel_eq] at hkey
    have hsame : other.partLabel field = part.1 := by
      rw [Row.partLabel, hlabel, ← hkey]
      rfl
    have hnone := hapart part hpart ⟨row, hin, hlacks⟩ other
      ((mem_part_iff hpart).mpr ⟨hother, hsame⟩)
    rw [(other.label?_eq_none_iff field).mpr hnone] at hlabel
    cases hlabel
  · rcases hmixed part hpart hrow other hother with hlacks | hlabel
    · exact hlacks
    · obtain ⟨row, hin, hlacks⟩ := hrow
      exact absurd hlabel (hlabels ⟨row, ((mem_part_iff hpart).mp hin).1, hlacks⟩ other
        ((mem_part_iff hpart).mp hother).1)

/-- A team of this name takes in the rows without a team. -/
theorem partition_mixes_empty :
    let named : Row := [("team", .string "(empty)"), ("weight", .number (.integer 3))]
    let bare : Row := [("weight", .number (.integer 5))]
    (∃ part ∈ partition [named, bare] "team", named ∈ part.2 ∧ bare ∈ part.2) ∧
      named.label? "team" = some "(empty)" ∧ bare.Lacks "team" := by
  intro named bare
  have hparts : partition [named, bare] "team" = [("(empty)", [named, bare])] := rfl
  rw [hparts]
  exact ⟨⟨_, List.mem_singleton_self _, List.mem_cons_self,
    List.mem_cons_of_mem _ List.mem_cons_self⟩, rfl, .inl rfl⟩

end Table

end ChartCompiler
