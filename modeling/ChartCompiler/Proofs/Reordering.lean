import ChartCompiler.Plot.Series
import ChartCompiler.Proofs.StableGroups
import ChartCompiler.Proofs.Whiskers

/-!
# The order of values does not matter to boxes

No two doubles have one rank, not even the two zeros, and so values can be sorted in one way
only. Quartiles, whiskers and outliers are read off the sorted values, and a box plot depends on
its table through the boxes of the groups alone. It stays the same when rows change places, as
long as the categories are seen in the same order.
-/

namespace ChartCompiler

/-! ## Groups in another order -/

namespace Groups

variable {α β : Type}

/-- The same keys in the same order, and under each key the same values in any order. -/
def Shuffles (groups other : Groups α) : Prop :=
  List.Forall₂ (fun g h => g.1 = h.1 ∧ g.2.Perm h.2) groups other

/-- What is made of each group apart from the order of its values is made of shuffled groups too. -/
theorem Shuffles.filterMap_eq {groups other : Groups α} (hshuffles : groups.Shuffles other)
    {make : String × List α → Option β}
    (hmake : ∀ {key : String} {values values' : List α}, values.Perm values' →
      make (key, values) = make (key, values')) :
    groups.filterMap make = other.filterMap make := by
  induction hshuffles with
  | nil => rfl
  | @cons g h groups other hhead hrest ih =>
      obtain ⟨key, values⟩ := g
      obtain ⟨key', values'⟩ := h
      obtain ⟨rfl, hperm⟩ := hhead
      rw [List.filterMap_cons, List.filterMap_cons, hmake hperm, ih]

end Groups

/-- Rows may change places as long as the labels are first seen in the same order. -/
theorem Table.shuffles_groupValues_of_perm {rows other : Table} (hperm : rows.Perm other)
    {x : String} (hlabels : rows.distinctLabels x = other.distinctLabels x) (y : String) :
    (rows.groupValues x y).Shuffles (other.groupValues x y) := by
  rw [groupValues_eq_map, groupValues_eq_map, hlabels]
  refine List.forall₂_map_left_iff.mpr (List.forall₂_map_right_iff.mpr (List.forall₂_same.mpr ?_))
  intro label _
  exact ⟨rfl, (hperm.filter _).filterMap _⟩

namespace Statistics

/-! ## Sorted values -/

section Sorted

variable {values other : List Float} (hperm : values.Perm other)
include hperm

theorem sorted_eq_of_perm : sorted values = sorted other := by
  have hsorted : (sorted values).Perm (sorted other) :=
    (sorted_perm values).trans (hperm.trans (sorted_perm other).symm)
  refine hsorted.eq_of_pairwise (fun a b _ _ hab hba => ?_) (pairwise_sorted values)
    (pairwise_sorted other)
  exact Dyadic.rank_injective (le_antisymm hab hba)

theorem quartileRange_eq_of_perm : quartileRange values = quartileRange other := by
  unfold quartileRange
  rw [sorted_eq_of_perm hperm]

theorem BoxSummary.of?_eq_of_perm : of? values = of? other := by
  unfold of?
  rw [sorted_eq_of_perm hperm, hperm.isEmpty_eq]

end Sorted

end Statistics

namespace SeriesRequest

open Statistics

theorem boxplotSeries_eq_of_shuffles (request : SeriesRequest) {rows other : Table}
    (hshuffles : (rows.groupValues request.x.field request.y.field).Shuffles
      (other.groupValues request.x.field request.y.field)) :
    request.boxplotSeries rows = request.boxplotSeries other := by
  unfold boxplotSeries
  dsimp only
  rw [hshuffles.filterMap_eq fun hperm => by dsimp only; rw [BoxSummary.of?_eq_of_perm hperm]]

/-- Sorted values, box lengths and boxes do not depend on the order of the values, and a box plot
does not depend on the order of the numbers of each category. -/
theorem boxes_ignore_order :
    (∀ values other : List Float, values.Perm other →
      sorted values = sorted other ∧ quartileRange values = quartileRange other ∧
        BoxSummary.of? values = BoxSummary.of? other) ∧
    ∀ (request : SeriesRequest) (rows other : Table),
      (rows.groupValues request.x.field request.y.field).Shuffles
        (other.groupValues request.x.field request.y.field) →
      request.boxplotSeries rows = request.boxplotSeries other :=
  ⟨fun _ _ hperm => ⟨sorted_eq_of_perm hperm, quartileRange_eq_of_perm hperm,
      BoxSummary.of?_eq_of_perm hperm⟩,
    fun request _ _ hshuffles => request.boxplotSeries_eq_of_shuffles hshuffles⟩

/-- The sales of the quarters by region, in a box plot. -/
def regional : SeriesRequest :=
  { quarterly with chartType := .boxplot, group := none }

/-- The north has both zeros, before and after the east. -/
def northAroundEast : Table :=
  [[("region", .string "North"), ("sales", .number (.real 0))],
    [("region", .string "East"), ("sales", .number (.integer 5))],
    [("region", .string "North"), ("sales", .number (.real (-0.0)))],
    [("region", .string "North"), ("sales", .number (.integer 7))]]

theorem boxes_ignore_order_zeros :
    [0, -0.0, (7 : Float)].Perm [7, -0.0, 0] ∧
      BoxSummary.of? [0, -0.0, 7] = BoxSummary.of? [7, -0.0, 0] ∧
      (northAroundEast.groupValues "region" "sales").Shuffles
        (Table.groupValues northAroundEast.reverse "region" "sales") ∧
      regional.boxplotSeries northAroundEast = regional.boxplotSeries northAroundEast.reverse := by
  have hperm : [0, -0.0, (7 : Float)].Perm [7, -0.0, 0] := (List.reverse_perm _).symm
  have hrows : northAroundEast.Perm northAroundEast.reverse := (List.reverse_perm _).symm
  have hlabels : northAroundEast.distinctLabels "region" =
      Table.distinctLabels northAroundEast.reverse "region" := by decide +kernel
  have hshuffles := Table.shuffles_groupValues_of_perm hrows hlabels "sales"
  exact ⟨hperm, (boxes_ignore_order.1 _ _ hperm).2.2, hshuffles,
    boxes_ignore_order.2 regional _ _ hshuffles⟩

end SeriesRequest

end ChartCompiler
