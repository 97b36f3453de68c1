import ChartCompiler.Proofs.Double.Rank
import ChartCompiler.Proofs.Double.Steps
import ChartCompiler.Proofs.Quartiles

/-!
# Whiskers and outliers

Fences stand one and a half box lengths beyond the quartiles. They may be infinite, and where
the quartiles of two tiny values are rounded past one another they even stand inside the box,
but they are never NaN, and both whiskers end on their side of them. So a value is between the
whiskers just if it is between the fences, and the outliers are the other ones.
-/

namespace ChartCompiler

open Double

namespace Statistics

namespace BoxSummary

def lowerFence (box : BoxSummary) : Float :=
  box.lowerQuartile - 1.5 * (box.upperQuartile - box.lowerQuartile)

def upperFence (box : BoxSummary) : Float :=
  box.upperQuartile + 1.5 * (box.upperQuartile - box.lowerQuartile)

def Encloses (box : BoxSummary) (v : Float) : Prop :=
  box.lowerWhisker ≤ v ∧ v ≤ box.upperWhisker

instance (box : BoxSummary) (v : Float) : Decidable (box.Encloses v) :=
  inferInstanceAs (Decidable (_ ∧ _))

/-! ## Fences -/

/-- The fences stand outside the box or, if its ends are swapped, inside. -/
structure IsFenced (box : BoxSummary) : Prop where
  isNaN_lower : box.lowerFence.isNaN = false
  isNaN_upper : box.upperFence.isNaN = false
  outside : box.lowerQuartile ≤ box.upperQuartile →
    box.lowerFence ≤ box.lowerQuartile ∧ box.upperQuartile ≤ box.upperFence
  inside : box.upperQuartile ≤ box.lowerQuartile →
    box.lowerQuartile ≤ box.lowerFence ∧ box.upperFence ≤ box.upperQuartile

theorem isFenced {box : BoxSummary} (hlower : box.lowerQuartile.isFinite = true)
    (hupper : box.upperQuartile.isFinite = true) : box.IsFenced := by
  have hrange := rounds_sub hupper hlower
  have hstep := steps_mul hrange.isNaN
  have hbelow := steps_sub hlower hstep.isNaN
  have habove := steps_add hupper hstep.isNaN
  refine ⟨hbelow.isNaN, habove.isNaN, fun horder => ?_, fun horder => ?_⟩
  · rw [real_le_real_iff hlower hupper] at horder
    have hnonneg := hstep.up (hrange.ge rfl (by rw [real_zero]; linarith))
    exact ⟨hbelow.down ((neg_nonpos_iff _).mpr hnonneg), habove.up hnonneg⟩
  · rw [real_le_real_iff hupper hlower] at horder
    have hnonpos := hstep.down (hrange.le rfl (by rw [real_zero]; linarith))
    exact ⟨hbelow.up ((neg_nonneg_iff _).mpr hnonpos), habove.down hnonpos⟩

end BoxSummary

/-! ## Sorted values -/

theorem pairwise_sorted (values : List Float) :
    (sorted values).Pairwise fun a b => Dyadic.rank a ≤ Dyadic.rank b := by
  have hsorted : (sorted values).Pairwise fun a b =>
      decide (Dyadic.rank a ≤ Dyadic.rank b) = true := by
    refine List.pairwise_mergeSort (fun a b c hab hbc => ?_) (fun a b => ?_) values
    · rw [decide_eq_true_eq] at hab hbc ⊢
      exact hab.trans hbc
    · rw [Bool.or_eq_true, decide_eq_true_eq, decide_eq_true_eq]
      exact le_total _ _
  exact hsorted.imp of_decide_eq_true

theorem pairwise_le_sorted {values : List Float} (hfinite : ∀ v ∈ values, v.isFinite = true) :
    (sorted values).Pairwise (· ≤ ·) := by
  have hdata := isFinite_of_mem_sorted hfinite
  exact (pairwise_sorted values).imp_of_mem fun ha hb =>
    Dyadic.le_of_rank_le (hdata _ ha) (hdata _ hb)

/-- What is found first comes before everything else that is looked for. -/
theorem rel_of_find?_eq_some {α : Type} {r : α → α → Prop} {p : α → Bool} {data : List α}
    (hdata : data.Pairwise r) (hself : ∀ v ∈ data, r v v) {first : α}
    (hfirst : data.find? p = some first) {v : α} (hv : v ∈ data) (hp : p v = true) :
    r first v := by
  obtain ⟨-, before, after, rfl, hbefore⟩ := List.find?_eq_some_iff_append.mp hfirst
  rw [List.mem_append, List.mem_cons] at hv
  rcases hv with hv | rfl | hv
  · have hnot := hbefore v hv
    rw [hp] at hnot
    exact absurd hnot (by decide)
  · exact hself v (List.mem_of_find?_eq_some hfirst)
  · exact List.rel_of_pairwise_cons (List.pairwise_append.mp hdata).2.1 hv

namespace BoxSummary

/-! ## Whiskers -/

section Whiskers

variable {values : List Float} {box : BoxSummary} (hbox : of? values = some box)
include hbox

theorem of?_eq_some : box.lowerQuartile = percentile (sorted values) 0.25 ∧
    box.upperQuartile = percentile (sorted values) 0.75 ∧
    box.lowerWhisker =
      ((sorted values).find? (box.lowerFence ≤ ·)).getD box.lowerQuartile ∧
    box.upperWhisker =
      ((sorted values).reverse.find? (· ≤ box.upperFence)).getD box.upperQuartile ∧
    box.outliers =
      (sorted values).filter fun v => v < box.lowerFence || box.upperFence < v := by
  unfold of? at hbox
  split_ifs at hbox
  obtain rfl := Option.some.inj hbox
  exact ⟨rfl, rfl, rfl, rfl, rfl⟩

variable (hfinite : ∀ v ∈ values, v.isFinite = true) (hlength : values.length < 2 ^ 63)
include hfinite hlength

theorem isFinite_quartiles :
    box.lowerQuartile.isFinite = true ∧ box.upperQuartile.isFinite = true := by
  obtain ⟨hlower, hupper, -⟩ := of?_eq_some hbox
  have hdata := isFinite_of_mem_sorted hfinite
  have hsize : (sorted values).length < 2 ^ 63 := by rwa [length_sorted]
  rw [hlower, hupper]
  exact ⟨isFinite_quartile .lower hsize hdata, isFinite_quartile .upper hsize hdata⟩

theorem isFenced_of? : box.IsFenced :=
  have hquartiles := isFinite_quartiles hbox hfinite hlength
  isFenced hquartiles.1 hquartiles.2

/-- The lower whisker is the least value above its fence. Without any such value it is the
quartile. -/
theorem lowerWhisker_cases :
    (box.lowerWhisker ∈ values ∧ box.lowerFence ≤ box.lowerWhisker ∧
      ∀ v ∈ values, box.lowerFence ≤ v → box.lowerWhisker ≤ v) ∨
    (box.lowerWhisker = box.lowerQuartile ∧ ∀ v ∈ values, v < box.lowerFence) := by
  obtain ⟨-, -, hwhisker, -, -⟩ := of?_eq_some hbox
  have hfence := (isFenced_of? hbox hfinite hlength).isNaN_lower
  have hmem : ∀ v, v ∈ sorted values ↔ v ∈ values := fun v => (sorted_perm values).mem_iff
  rw [hwhisker]
  cases hfound : (sorted values).find? (box.lowerFence ≤ ·) with
  | none =>
      refine .inr ⟨rfl, fun v hv => ?_⟩
      have hbelow := List.find?_eq_none.mp hfound v ((hmem v).mpr hv)
      by_contra hnot
      exact hbelow (decide_eq_true (le_of_not_lt (isNaN_of_isFinite (hfinite v hv)) hfence hnot))
  | some first =>
      have hreached : box.lowerFence ≤ first := by simpa using List.find?_some hfound
      refine .inl ⟨(hmem first).mp (List.mem_of_find?_eq_some hfound), hreached,
        fun v hv hle => ?_⟩
      have hself : ∀ v ∈ sorted values, v ≤ v := fun v hv =>
        le_self (isNaN_of_isFinite (hfinite v ((hmem v).mp hv)))
      exact rel_of_find?_eq_some (pairwise_le_sorted hfinite) hself hfound ((hmem v).mpr hv)
        (decide_eq_true hle)

/-- The upper whisker is the greatest value below its fence. Without any such value it is the
quartile. -/
theorem upperWhisker_cases :
    (box.upperWhisker ∈ values ∧ box.upperWhisker ≤ box.upperFence ∧
      ∀ v ∈ values, v ≤ box.upperFence → v ≤ box.upperWhisker) ∨
    (box.upperWhisker = box.upperQuartile ∧ ∀ v ∈ values, box.upperFence < v) := by
  obtain ⟨-, -, -, hwhisker, -⟩ := of?_eq_some hbox
  have hfence := (isFenced_of? hbox hfinite hlength).isNaN_upper
  have hmem : ∀ v, v ∈ (sorted values).reverse ↔ v ∈ values := fun v =>
    List.mem_reverse.trans (sorted_perm values).mem_iff
  rw [hwhisker]
  cases hfound : (sorted values).reverse.find? (· ≤ box.upperFence) with
  | none =>
      refine .inr ⟨rfl, fun v hv => ?_⟩
      have habove := List.find?_eq_none.mp hfound v ((hmem v).mpr hv)
      by_contra hnot
      exact habove (decide_eq_true (le_of_not_lt hfence (isNaN_of_isFinite (hfinite v hv)) hnot))
  | some last =>
      have hreached : last ≤ box.upperFence := by simpa using List.find?_some hfound
      refine .inl ⟨(hmem last).mp (List.mem_of_find?_eq_some hfound), hreached,
        fun v hv hle => ?_⟩
      have hself : ∀ v ∈ (sorted values).reverse, v ≤ v := fun v hv =>
        le_self (isNaN_of_isFinite (hfinite v ((hmem v).mp hv)))
      exact rel_of_find?_eq_some (r := fun a b => b ≤ a)
        (List.pairwise_reverse.mpr (pairwise_le_sorted hfinite)) hself hfound ((hmem v).mpr hv)
        (decide_eq_true hle)

/-- Nothing is between the whiskers that is not between the fences: where the fences are inside the
box, the whiskers end outside of it, the upper one below the lower one. -/
theorem encloses_iff {v : Float} (hv : v ∈ values) :
    box.Encloses v ↔ box.lowerFence ≤ v ∧ v ≤ box.upperFence := by
  obtain ⟨hlowerFinite, hupperFinite⟩ := isFinite_quartiles hbox hfinite hlength
  obtain ⟨hlowerFence, hupperFence, houtside, hinside⟩ := isFenced_of? hbox hfinite hlength
  have hvalue := isNaN_of_isFinite (hfinite v hv)
  have hlower := lowerWhisker_cases hbox hfinite hlength
  have hupper := upperWhisker_cases hbox hfinite hlength
  have hlowerNumber := isNaN_of_isFinite hlowerFinite
  have hupperNumber := isNaN_of_isFinite hupperFinite
  constructor
  · rintro ⟨hlow, hhigh⟩
    by_cases hswapped : box.upperQuartile < box.lowerQuartile
    · obtain ⟨hlowerInside, hupperInside⟩ := hinside (le_of_lt' hswapped)
      have habove : box.lowerQuartile ≤ box.lowerWhisker := by
        rcases hlower with ⟨-, hfence, -⟩ | ⟨heq, -⟩
        · exact le_of_le_of_le hlowerInside hfence
        · rw [heq]
          exact le_self hlowerNumber
      have hbelow : box.upperWhisker ≤ box.upperQuartile := by
        rcases hupper with ⟨-, hfence, -⟩ | ⟨heq, -⟩
        · exact le_of_le_of_le hfence hupperInside
        · rw [heq]
          exact le_self hupperNumber
      have horder := le_of_le_of_le habove (le_of_le_of_le hlow (le_of_le_of_le hhigh hbelow))
      rw [real_le_real_iff hlowerFinite hupperFinite] at horder
      rw [real_lt_real_iff hupperFinite hlowerFinite] at hswapped
      exact absurd horder hswapped.not_ge
    · obtain ⟨hlowerOutside, hupperOutside⟩ :=
        houtside (le_of_not_lt hupperNumber hlowerNumber hswapped)
      constructor
      · rcases hlower with ⟨-, hfence, -⟩ | ⟨heq, -⟩
        · exact le_of_le_of_le hfence hlow
        · rw [heq] at hlow
          exact le_of_le_of_le hlowerOutside hlow
      · rcases hupper with ⟨-, hfence, -⟩ | ⟨heq, -⟩
        · exact le_of_le_of_le hhigh hfence
        · rw [heq] at hhigh
          exact le_of_le_of_le hhigh hupperOutside
  · rintro ⟨hlow, hhigh⟩
    constructor
    · rcases hlower with ⟨-, -, hleast⟩ | ⟨-, hnone⟩
      · exact hleast v hv hlow
      · exact absurd hlow ((not_le_iff hlowerFence hvalue).mpr (hnone v hv))
    · rcases hupper with ⟨-, -, hgreatest⟩ | ⟨-, hnone⟩
      · exact hgreatest v hv hhigh
      · exact absurd hhigh ((not_le_iff hvalue hupperFence).mpr (hnone v hv))

theorem lowerWhisker_reaches_iff : box.lowerWhisker ≤ box.lowerQuartile ↔
    (∃ v ∈ values, box.lowerFence ≤ v ∧ v ≤ box.lowerQuartile) ∨
      ∀ v ∈ values, v < box.lowerFence := by
  have hquartile := isNaN_of_isFinite (isFinite_quartiles hbox hfinite hlength).1
  have hfence := (isFenced_of? hbox hfinite hlength).isNaN_lower
  rcases lowerWhisker_cases hbox hfinite hlength with ⟨hmem, hreached, hleast⟩ | ⟨heq, hnone⟩
  · constructor
    · exact fun hle => .inl ⟨box.lowerWhisker, hmem, hreached, hle⟩
    · rintro (⟨v, hv, hlow, hhigh⟩ | hnone)
      · exact le_of_le_of_le (hleast v hv hlow) hhigh
      · have hvalue := isNaN_of_isFinite (hfinite _ hmem)
        exact absurd hreached ((not_le_iff hfence hvalue).mpr (hnone _ hmem))
  · rw [heq]
    exact ⟨fun _ => .inr hnone, fun _ => le_self hquartile⟩

theorem upperWhisker_reaches_iff : box.upperQuartile ≤ box.upperWhisker ↔
    (∃ v ∈ values, box.upperQuartile ≤ v ∧ v ≤ box.upperFence) ∨
      ∀ v ∈ values, box.upperFence < v := by
  have hquartile := isNaN_of_isFinite (isFinite_quartiles hbox hfinite hlength).2
  have hfence := (isFenced_of? hbox hfinite hlength).isNaN_upper
  rcases upperWhisker_cases hbox hfinite hlength with ⟨hmem, hreached, hgreatest⟩ | ⟨heq, hnone⟩
  · constructor
    · exact fun hle => .inl ⟨box.upperWhisker, hmem, hle, hreached⟩
    · rintro (⟨v, hv, hlow, hhigh⟩ | hnone)
      · exact le_of_le_of_le hlow (hgreatest v hv hhigh)
      · have hvalue := isNaN_of_isFinite (hfinite _ hmem)
        exact absurd hreached ((not_le_iff hvalue hfence).mpr (hnone _ hmem))
  · rw [heq]
    exact ⟨fun _ => .inr hnone, fun _ => le_self hquartile⟩

theorem outliers_eq :
    box.outliers = (sorted values).filter fun v => ¬box.Encloses v := by
  obtain ⟨-, -, -, -, houtliers⟩ := of?_eq_some hbox
  obtain ⟨hlowerFence, hupperFence, -, -⟩ := isFenced_of? hbox hfinite hlength
  rw [houtliers]
  refine List.filter_congr fun v hv => ?_
  have hmem : v ∈ values := (sorted_perm values).mem_iff.mp hv
  have hvalue := isNaN_of_isFinite (hfinite v hmem)
  rw [← Bool.decide_or, decide_eq_decide, encloses_iff hbox hfinite hlength hmem,
    ← not_le_iff hlowerFence hvalue, ← not_le_iff hvalue hupperFence]
  tauto

end Whiskers

/-- The outliers are some of the sorted values, those between the whiskers are the other ones, and
no outlier is between the whiskers. -/
structure Splits (box : BoxSummary) (values : List Float) : Prop where
  sorts : (sorted values).Perm values
  ascends : (sorted values).Pairwise fun a b => Dyadic.rank a ≤ Dyadic.rank b
  sublist : box.outliers.Sublist (sorted values)
  covers : (box.outliers ++ values.filter (box.Encloses ·)).Perm values
  apart : ∀ v ∈ box.outliers, ¬box.Encloses v

theorem exists_of? {values : List Float} (hne : values ≠ []) : ∃ box, of? values = some box := by
  unfold of?
  rw [if_neg (mt List.isEmpty_iff.mp hne)]
  exact ⟨_, rfl⟩

/-- The box of finite values splits them. No list in memory has `2 ^ 63` items. -/
theorem exists_splits {values : List Float} (hne : values ≠ [])
    (hfinite : ∀ v ∈ values, v.isFinite = true) (hlength : values.length < 2 ^ 63) :
    ∃ box, of? values = some box ∧ box.Splits values := by
  obtain ⟨box, hbox⟩ := exists_of? hne
  have houtliers := outliers_eq hbox hfinite hlength
  have hperm := sorted_perm values
  refine ⟨box, hbox, hperm, pairwise_sorted values, ?_, ?_, fun v hv => ?_⟩
  · rw [houtliers]
    exact List.filter_sublist
  · have hsplit := List.filter_append_perm (fun v => decide (box.Encloses v)) (sorted values)
    simp only [← decide_not] at hsplit
    have hbetween := (hperm.filter (box.Encloses ·)).symm.append_right
      ((sorted values).filter fun v => ¬box.Encloses v)
    rw [houtliers]
    exact List.perm_append_comm.trans (hbetween.trans (hsplit.trans hperm))
  · rw [houtliers, List.mem_filter] at hv
    exact of_decide_eq_true hv.2

theorem sorted_eq_self {values : List Float}
    (hvalues : values.Pairwise fun a b => Dyadic.rank a ≤ Dyadic.rank b) :
    sorted values = values :=
  List.mergeSort_of_pairwise (hvalues.imp fun h => decide_eq_true h)

theorem exists_splits_far :
    [1, 2, 3, 4, 100] ≠ ([] : List Float) ∧
      (∀ v ∈ [1, 2, 3, 4, 100], Float.isFinite v = true) ∧
      ([1, 2, 3, 4, 100] : List Float).length < 2 ^ 63 ∧
      ∃ box, of? [1, 2, 3, 4, 100] = some box ∧ box.Splits [1, 2, 3, 4, 100] ∧
        box.outliers = [100] := by
  have hne : [1, 2, 3, 4, 100] ≠ ([] : List Float) := List.cons_ne_nil _ _
  have hfinite : ∀ v ∈ [1, 2, 3, 4, 100], Float.isFinite v = true := by decide +kernel
  have hlength : ([1, 2, 3, 4, 100] : List Float).length < 2 ^ 63 := by decide
  obtain ⟨box, hbox, hsplits⟩ := exists_splits hne hfinite hlength
  have houtliers : (of? [1, 2, 3, 4, 100]).map outliers = some [100] := by
    have hsorted : sorted [1, 2, 3, 4, 100] = [1, 2, 3, 4, 100] :=
      sorted_eq_self (by decide +kernel)
    unfold of?
    rw [hsorted]
    decide +kernel
  rw [hbox] at houtliers
  exact ⟨hne, hfinite, hlength, box, hbox, hsplits, Option.some.inj houtliers⟩

/-! ## The box between the whiskers -/

/-- A whisker reaches the box if there is a value to end at between the quartile and the fence, and
also if no value at all is on this side of the fence. Otherwise it ends inside the box. The
quartiles of `4 k + 1` values are such values. -/
theorem whiskers_reach_box {values : List Float} (hne : values ≠ [])
    (hfinite : ∀ v ∈ values, v.isFinite = true) (hlength : values.length < 2 ^ 63) :
    ∃ box, of? values = some box ∧
      (box.lowerWhisker ≤ box.lowerQuartile ↔
        (∃ v ∈ values, box.lowerFence ≤ v ∧ v ≤ box.lowerQuartile) ∨
          ∀ v ∈ values, v < box.lowerFence) ∧
      (box.upperQuartile ≤ box.upperWhisker ↔
        (∃ v ∈ values, box.upperQuartile ≤ v ∧ v ≤ box.upperFence) ∨
          ∀ v ∈ values, box.upperFence < v) ∧
      (values.length % 4 = 1 →
        box.lowerWhisker ≤ box.lowerQuartile ∧ box.upperQuartile ≤ box.upperWhisker) := by
  obtain ⟨box, hbox⟩ := exists_of? hne
  have hlower := lowerWhisker_reaches_iff hbox hfinite hlength
  have hupper := upperWhisker_reaches_iff hbox hfinite hlength
  refine ⟨box, hbox, hlower, hupper, fun hmod => ?_⟩
  obtain ⟨hq1, hq3, -⟩ := of?_eq_some hbox
  have hsize : (sorted values).length < 2 ^ 63 := by rwa [length_sorted]
  have hfourth : (sorted values).length % 4 = 1 := by rwa [length_sorted]
  have hmem : ∀ {p}, IsQuartile p → percentile (sorted values) p ∈ values := fun hp =>
    (sorted_perm values).mem_iff.mp (quartile_mem hp hsize hfourth)
  have horder : box.lowerQuartile ≤ box.upperQuartile := by
    rw [hq1, hq3]
    exact quartile_le (pairwise_le_sorted hfinite) (isFinite_of_mem_sorted hfinite) hsize hfourth
  obtain ⟨hlowerFence, hupperFence⟩ := (isFenced_of? hbox hfinite hlength).outside horder
  constructor
  · refine hlower.mpr (.inl ⟨box.lowerQuartile, ?_, hlowerFence, ?_⟩)
    · rw [hq1]
      exact hmem .lower
    · exact le_self (isNaN_of_isFinite (isFinite_quartiles hbox hfinite hlength).1)
  · refine hupper.mpr (.inl ⟨box.upperQuartile, ?_, ?_, hupperFence⟩)
    · rw [hq3]
      exact hmem .upper
    · exact le_self (isNaN_of_isFinite (isFinite_quartiles hbox hfinite hlength).2)

theorem whiskers_reach_box_far :
    [1, 2, 3, 4, 100] ≠ ([] : List Float) ∧
      (∀ v ∈ [1, 2, 3, 4, 100], Float.isFinite v = true) ∧
      ([1, 2, 3, 4, 100] : List Float).length < 2 ^ 63 ∧
      ∃ box, of? [1, 2, 3, 4, 100] = some box ∧
        box.lowerWhisker ≤ box.lowerQuartile ∧ box.upperQuartile ≤ box.upperWhisker := by
  have hne : [1, 2, 3, 4, 100] ≠ ([] : List Float) := List.cons_ne_nil _ _
  have hfinite : ∀ v ∈ [1, 2, 3, 4, 100], Float.isFinite v = true := by decide +kernel
  have hlength : ([1, 2, 3, 4, 100] : List Float).length < 2 ^ 63 := by decide
  obtain ⟨box, hbox, -, -, hreach⟩ := whiskers_reach_box hne hfinite hlength
  exact ⟨hne, hfinite, hlength, box, hbox, hreach rfl⟩

/-- The least value is beyond its fence, and all other values are above the quartile. -/
theorem lowerWhisker_inside_box :
    ¬∀ box, of? [0, 1, 1, 1] = some box →
      box.lowerWhisker ≤ box.lowerQuartile ∧ box.upperQuartile ≤ box.upperWhisker := by
  have hsorted : sorted [0, 1, 1, 1] = [0, 1, 1, 1] := sorted_eq_self (by decide +kernel)
  intro hreach
  unfold of? at hreach
  rw [hsorted] at hreach
  have hlower := (hreach _ rfl).1
  exact absurd hlower (by decide +kernel)

end BoxSummary

end Statistics

end ChartCompiler
