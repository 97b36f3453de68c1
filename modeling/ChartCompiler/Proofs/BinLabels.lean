import ChartCompiler.Plot.Series
import ChartCompiler.Proofs.Double.Bounds
import ChartCompiler.Proofs.Magnitudes
import ChartCompiler.Proofs.ShownTexts
import Mathlib.Analysis.SpecialFunctions.Log.Base

/-!
# Labels of neighbouring bins

Bins are labelled by their middles, with decimal places to fit their width, two to twelve. Two
neighbours share a label exactly if their middles, each with its own number of places, show one
number. Bins that are not narrow, neither for twelve places nor for the precision of doubles
where they stand, never do.
-/

namespace ChartCompiler

open Double

/-- A decimal logarithm is right to a half at this double. -/
structure FollowsLog (log10 : Float → Float) (x : Float) : Prop where
  finite : (log10 x).isFinite = true
  close : |real (log10 x) - Real.logb 10 (real x)| ≤ 1 / 2

namespace Statistics

namespace Bin

def width (bin : Bin) : Float :=
  bin.stop - bin.start

/-- The decimal places of a label. They follow from the decimal logarithm of the width. -/
def places (log10 : Float → Float) (bin : Bin) : ℕ :=
  if 0 < bin.width && bin.width.isFinite then
    max 2 (min 12 (ceilNat (-log10 bin.width) + 1))
  else 2

def label (log10 : Float → Float) (bin : Bin) : String :=
  Decimal.trimPlaces (Decimal.fixed (bin.places log10) bin.center)

/-- The middles are written alike. -/
def Alike (log10 : Float → Float) (a b : Bin) : Prop :=
  Decimal.ShownAlike (a.places log10) (b.places log10) a.center b.center

variable (log10 : Float → Float)

theorem two_le_places (bin : Bin) : 2 ≤ bin.places log10 := by
  unfold places
  split_ifs
  · exact le_max_left _ _
  · exact le_rfl

theorem places_le_twelve (bin : Bin) : bin.places log10 ≤ 12 := by
  unfold places
  split_ifs <;> omega

theorem label_eq_iff (a b : Bin) : a.label log10 = b.label log10 ↔ a.Alike log10 b :=
  Decimal.trimPlaces_fixed_eq_iff (Nat.lt_of_lt_of_le two_pos (two_le_places log10 a))
    (Nat.lt_of_lt_of_le two_pos (two_le_places log10 b))

theorem isChain_label_iff (bins : List Bin) :
    (bins.map (label log10)).IsChain (· ≠ ·) ↔ bins.IsChain fun a b => ¬a.Alike log10 b := by
  rw [List.isChain_map]
  simp only [ne_eq, label_eq_iff]

/-! ## Decimal places -/

theorem rpow_neg_half_le : (10 : ℝ) ^ (-(1 / 2) : ℝ) ≤ 1 / 3 := by
  have hroot : 3 ≤ √(10 : ℝ) := Real.le_sqrt_of_sq_le (by norm_num)
  rw [Real.rpow_neg (by norm_num), ← Real.sqrt_eq_rpow, ← one_div]
  exact one_div_le_one_div_of_le (by norm_num) hroot

variable {log10}

/-- Where the logarithm is read, the width is at most three of the last place that it gives. -/
theorem unit_le_of_followsLog {bin : Bin} (hwide : 1 / 10 ^ 12 ≤ real bin.width)
    (hlog : FollowsLog log10 bin.width) :
    1 / 10 ^ (ceilNat (-log10 bin.width) + 1) ≤ real bin.width / 3 := by
  obtain ⟨hlogFinite, hnear⟩ := hlog
  have hpos : 0 < real bin.width := lt_of_lt_of_le (by norm_num) hwide
  have hlow : -12 ≤ Real.logb 10 (real bin.width) := by
    have hpower : (10 : ℝ) ^ (-12 : ℝ) = 1 / 10 ^ 12 := by
      rw [Real.rpow_neg (by norm_num), one_div]
      norm_num
    rwa [Real.le_logb_iff_rpow_le (by norm_num) hpos, hpower]
  obtain ⟨hlogLow, hlogHigh⟩ := abs_le.mp hnear
  have hneg : (-log10 bin.width).isFinite = true := by rwa [isFinite_neg]
  have hceil := real_le_ceilNat hneg (by rw [real_neg]; linarith)
  rw [real_neg] at hceil
  calc
    1 / (10 : ℝ) ^ (ceilNat (-log10 bin.width) + 1)
    _ = 10 ^ (-(ceilNat (-log10 bin.width) + 1 : ℕ) : ℝ) := by
      rw [Real.rpow_neg (by norm_num), Real.rpow_natCast, one_div]
    _ ≤ 10 ^ (Real.logb 10 (real bin.width) + -(1 / 2)) := by
      refine Real.rpow_le_rpow_of_exponent_le (by norm_num) ?_
      push_cast
      linarith
    _ = real bin.width * 10 ^ (-(1 / 2) : ℝ) := by
      rw [Real.rpow_add (by norm_num), Real.rpow_logb (by norm_num) (by norm_num) hpos]
    _ ≤ real bin.width * (1 / 3) := mul_le_mul_of_nonneg_left rpow_neg_half_le hpos.le
    _ = real bin.width / 3 := by ring

/-- A unit of the last place is at most a third of the width, or else it is the twelfth place. Wide
bins do not need the logarithm for that. -/
theorem unit_le {bin : Bin} (hfinite : bin.width.isFinite = true)
    (hwide : 1 / 10 ^ 12 ≤ real bin.width)
    (hlog : real bin.width < 3 / 100 → FollowsLog log10 bin.width) :
    1 / 10 ^ bin.places log10 ≤ max (1 / 10 ^ 12) (real bin.width / 3) := by
  have hunits : ∀ {m n : ℕ}, m ≤ n → 1 / (10 : ℝ) ^ n ≤ 1 / 10 ^ m := fun hmn =>
    one_div_le_one_div_of_le (by positivity) (pow_le_pow_right₀ (by norm_num) hmn)
  rcases le_or_gt (3 / 100) (real bin.width) with hbroad | hnarrow
  · refine le_max_of_le_right ((hunits (two_le_places log10 bin)).trans ?_)
    norm_num
    linarith
  · have hplaces : min 12 (ceilNat (-log10 bin.width) + 1) ≤ bin.places log10 := by
      have hwidth : 0 < bin.width := by
        rw [real_lt_real_iff rfl hfinite, real_zero]
        exact lt_of_lt_of_le (by norm_num) hwide
      unfold places
      rw [decide_eq_true hwidth, hfinite, Bool.and_self, if_pos rfl]
      exact le_max_right _ _
    rcases le_or_gt 12 (ceilNat (-log10 bin.width) + 1) with hmany | hfew
    · exact le_max_of_le_left (hunits (by omega))
    · exact le_max_of_le_right ((hunits (by omega)).trans
        (unit_le_of_followsLog hwide (hlog hnarrow)))

end Bin

/-! ## Ends -/

/-- The width that bins are laid out with. -/
def binWidth (values : List Float) (binCount : ℕ) : Float :=
  let range := greatest values - least values
  if range == 0 then 1 else range / Float.ofNat binCount

def binEdge (values : List Float) (binCount i : ℕ) : Float :=
  least values + Float.ofNat i * binWidth values binCount

theorem length_foldl_countAt (index : Float → ℕ) (values : List Float) (counts : List ℕ) :
    (values.foldl (fun counts v => countAt (index v) counts) counts).length = counts.length := by
  induction values generalizing counts with
  | nil => rfl
  | cons v rest ih => rw [List.foldl_cons, ih, length_countAt]

theorem length_histogram {values : List Float} (hne : values ≠ []) (binCount : ℕ) :
    (histogram values binCount).length = binCount := by
  unfold histogram
  rw [if_neg (mt List.isEmpty_iff.mp hne)]
  dsimp only
  rw [List.length_map, List.length_zipIdx, length_foldl_countAt, List.length_replicate]

theorem getElem_histogram {values : List Float} {binCount i : ℕ}
    (hi : i < (histogram values binCount).length) :
    (histogram values binCount)[i].start = binEdge values binCount i ∧
      (histogram values binCount)[i].stop = binEdge values binCount (i + 1) := by
  have hne : values ≠ [] := by
    rintro rfl
    exact absurd hi (Nat.not_lt_zero _)
  unfold histogram
  simp only [if_neg (mt List.isEmpty_iff.mp hne), List.getElem_map, List.getElem_zipIdx, zero_add]
  exact ⟨rfl, rfl⟩

/-- Bins that are wide enough to be told apart, by twelve decimal places and by doubles as large as
the least value. -/
structure AreWide (values : List Float) (binCount : ℕ) : Prop where
  wide : 2 / 10 ^ 12 ≤ real (binWidth values binCount)
  bounded : real (binWidth values binCount) ≤ 2 ^ (970 : ℤ)
  near : |real (least values)| ≤ 2 ^ 48 * real (binWidth values binCount)

/-- Infinities and NaN have no place among the reals. -/
theorem isFinite_of_real_pos {x : Float} (hpos : 0 < real x) : x.isFinite = true := by
  rw [isFinite_eq]
  rw [real, value] at hpos
  cases hparts : parts x with
  | notANumber =>
      rw [hparts] at hpos
      exact absurd hpos (lt_irrefl 0)
  | infinity s =>
      rw [hparts] at hpos
      cases s <;> exact absurd hpos (lt_irrefl 0)
  | zero s => rfl
  | finite s m e hm => rfl

section Wide

variable {values : List Float} {binCount : ℕ} (hwide : AreWide values binCount)
  (hleast : (least values).isFinite = true) {i : ℕ}
include hwide

theorem AreWide.scale {c : ℝ} (hone : 1 ≤ c) (hlarge : c ≤ 2 ^ 50) :
    2 ^ (-1022 : ℤ) ≤ c * real (binWidth values binCount) ∧
      c * real (binWidth values binCount) ≤ 2 ^ (1022 : ℤ) := by
  obtain ⟨hlow, hhigh, -⟩ := hwide
  constructor
  · calc
      (2 : ℝ) ^ (-1022 : ℤ) ≤ 2 ^ (-40 : ℤ) := zpow_two_le (by norm_num)
      _ ≤ 2 / 10 ^ 12 := by norm_num
      _ ≤ real (binWidth values binCount) := hlow
      _ ≤ c * real (binWidth values binCount) :=
        le_mul_of_one_le_left (le_trans (by norm_num) hlow) hone
  · calc
      c * real (binWidth values binCount) ≤ 2 ^ 50 * 2 ^ (970 : ℤ) := by
        have hnonneg : 0 ≤ real (binWidth values binCount) := le_trans (by norm_num) hlow
        gcongr
      _ = 2 ^ (1020 : ℤ) := by
        rw [← zpow_natCast, ← zpow_two_add]
        norm_num
      _ ≤ 2 ^ (1022 : ℤ) := zpow_two_le (by norm_num)

include hleast

/-- Ends are rounded by a fifteenth of the width at most. -/
theorem near_binEdge (hi : i ≤ 50) :
    Near (binEdge values binCount i)
      (real (least values) + i * real (binWidth values binCount))
      (real (binWidth values binCount) / 15) := by
  have hscale := fun {c} => hwide.scale (c := c)
  obtain ⟨hlow, -, hnear⟩ := hwide
  unfold binEdge
  generalize hw : real (binWidth values binCount) = w at hlow hnear hscale ⊢
  have hpos : 0 < w := lt_of_lt_of_le (by norm_num) hlow
  have hwidth := isFinite_of_real_pos (hw ▸ hpos)
  have hcount : (i : ℝ) ≤ 50 := by exact_mod_cast hi
  have hmany : |i * w| ≤ 50 * w := by
    rw [abs_of_nonneg (by positivity)]
    gcongr
  have hproduct : Near (Float.ofNat i * binWidth values binCount) (i * w)
      (0 + 64 * w / 2 ^ 53) := by
    obtain ⟨hfinite, hreal⟩ := exact_ofNat (n := i) (by omega)
    obtain ⟨hclow, hchigh⟩ := hscale (c := 64) (by norm_num) (by norm_num)
    refine .of_rounds_le (rounds_mul hfinite hwidth) ?_ ?_ hclow hchigh
    · rw [hreal, hw, sub_self, abs_zero]
    · linarith
  obtain ⟨hclow, hchigh⟩ := hscale (c := 2 ^ 49) (by norm_num) (by norm_num)
  have hsum := Near.of_rounds_le (rounds_add hleast hproduct.isFinite)
    (r := real (least values) + i * w) (d := 0 + 64 * w / 2 ^ 53) (m := 2 ^ 49 * w)
    (by rw [add_sub_add_left_eq_sub]; exact hproduct.within)
    (by
      have htriangle := abs_add_le (real (least values)) (i * w)
      norm_num at hnear ⊢
      linarith)
    hclow hchigh
  refine hsum.mono ?_
  norm_num
  linarith

variable {bin : Bin} (hstart : bin.start = binEdge values binCount i)
  (hstop : bin.stop = binEdge values binCount (i + 1)) (hi : i < 50)
include hstart hstop hi

theorem near_width : Near bin.width (real (binWidth values binCount))
    (real (binWidth values binCount) / 7) := by
  have hfirst := near_binEdge hwide hleast (i := i) (by omega)
  have hlast := near_binEdge hwide hleast (i := i + 1) (by omega)
  obtain ⟨hclow, hchigh⟩ := hwide.scale (c := 2) (by norm_num) (by norm_num)
  have hlow := hwide.wide
  unfold Bin.width
  rw [hstart, hstop]
  generalize real (binWidth values binCount) = w at hfirst hlast hclow hchigh hlow ⊢
  have hpos : 0 < w := lt_of_lt_of_le (by norm_num) hlow
  have hdifference : |real (binEdge values binCount (i + 1)) - real (binEdge values binCount i) - w| ≤
      w / 15 + w / 15 := by
    have h1 := abs_le.mp hfirst.within
    have h2 := abs_le.mp hlast.within
    push_cast at h2
    rw [abs_le]
    constructor <;> linarith
  have hround := Near.of_rounds_le (rounds_sub hlast.isFinite hfirst.isFinite) hdifference
    (m := 2 * w) (by rw [abs_of_pos hpos]; linarith) hclow hchigh
  refine hround.mono ?_
  norm_num
  linarith

/-- Middles are rounded by a fifth of the width at most. -/
theorem near_center : Near bin.center
    (real (least values) + (i + 1 / 2) * real (binWidth values binCount))
    (real (binWidth values binCount) / 5) := by
  have hfirst := near_binEdge hwide hleast (i := i) (by omega)
  have hlast := near_binEdge hwide hleast (i := i + 1) (by omega)
  have hscale := fun {c} => hwide.scale (c := c)
  obtain ⟨hlow, -, hnear⟩ := hwide
  unfold Bin.center
  rw [hstart, hstop]
  generalize real (binWidth values binCount) = w at hfirst hlast hscale hlow hnear ⊢
  have hpos : 0 < w := lt_of_lt_of_le (by norm_num) hlow
  have hcount : (i : ℝ) ≤ 50 := by exact_mod_cast hi.le
  have hmany : (i : ℝ) * w ≤ 50 * w := by gcongr
  have hnonneg : 0 ≤ (i : ℝ) * w := by positivity
  have hsum : Near (binEdge values binCount i + binEdge values binCount (i + 1))
      (2 * real (least values) + (2 * i + 1) * w) (w / 15 + w / 15 + 2 ^ 50 * w / 2 ^ 53) := by
    obtain ⟨hclow, hchigh⟩ := hscale (c := 2 ^ 50) (by norm_num) (by norm_num)
    refine .of_rounds_le (rounds_add hfirst.isFinite hlast.isFinite) ?_ ?_ hclow hchigh
    · have h1 := abs_le.mp hfirst.within
      have h2 := abs_le.mp hlast.within
      push_cast at h2
      rw [abs_le]
      constructor <;> linarith
    · have hbound : |2 * real (least values) + (2 * i + 1) * w| ≤ 2 * (2 ^ 48 * w) + 101 * w := by
        obtain ⟨hleft, hright⟩ := abs_le.mp hnear
        rw [abs_le]
        constructor <;> linarith
      norm_num at hbound ⊢
      linarith
  have htwo : (2 : Float).isFinite = true ∧ real 2 = 2 := by
    exact_mod_cast exact_ofNat (n := 2) (by norm_num)
  obtain ⟨hclow, hchigh⟩ := hscale (c := 2 ^ 49) (by norm_num) (by norm_num)
  have hhalf : |real (binEdge values binCount i + binEdge values binCount (i + 1)) / real 2 -
      (real (least values) + (i + 1 / 2) * w)| ≤ w / 15 + w / 15 := by
    have hwithin := abs_le.mp hsum.within
    norm_num at hwithin
    rw [htwo.2, abs_le]
    constructor <;> linarith
  have hround := Near.of_rounds_le
    (rounds_div hsum.isFinite htwo.1 (by rw [htwo.2]; norm_num)) hhalf (m := 2 ^ 49 * w)
    (by
      have hbound : |real (least values) + (i + 1 / 2) * w| ≤ 2 ^ 48 * w + 51 * w := by
        obtain ⟨hleft, hright⟩ := abs_le.mp hnear
        rw [abs_le]
        constructor <;> linarith
      norm_num at hbound ⊢
      linarith)
    hclow hchigh
  refine hround.mono ?_
  norm_num
  linarith

/-- A label is off by less than half of the width. -/
theorem near_shown {log10 : Float → Float}
    (hlog : real bin.width < 3 / 100 → FollowsLog log10 bin.width) :
    |(Decimal.shown (bin.places log10) bin.center : ℝ) -
        (real (least values) + (i + 1 / 2) * real (binWidth values binCount))| ≤
      9 / 20 * real (binWidth values binCount) := by
  have hwidth := near_width hwide hleast hstart hstop hi
  have hcenter := (near_center hwide hleast hstart hstop hi).within
  have hshown := Decimal.abs_shown_sub_le (bin.places log10) bin.center
  have hlow := hwide.wide
  obtain ⟨hnarrow, hbroad⟩ := abs_le.mp hwidth.within
  have hunit := Bin.unit_le hwidth.isFinite (by norm_num at hlow ⊢; linarith) hlog
  generalize real (binWidth values binCount) = w at hcenter hlow hnarrow hbroad ⊢
  have hhalf : 1 / (2 * 10 ^ bin.places log10) ≤ w / 4 := by
    have hmost : max (1 / 10 ^ 12) (real bin.width / 3) ≤ w / 2 :=
      max_le (by linarith) (by linarith)
    have hsplit : 1 / (2 * (10 : ℝ) ^ bin.places log10) = 1 / 10 ^ bin.places log10 / 2 := by
      rw [div_div, mul_comm]
    rw [hsplit]
    linarith
  calc
    _ ≤ |(Decimal.shown (bin.places log10) bin.center : ℝ) - real bin.center| +
        |real bin.center - (real (least values) + (i + 1 / 2) * w)| := abs_sub_le _ _ _
    _ ≤ 9 / 20 * w := by linarith

end Wide

/-- Neighbours show different numbers: their middles are a width apart, and each label is off by
less than half of that. -/
theorem not_alike {values : List Float} {binCount : ℕ} (hwide : AreWide values binCount)
    (hleast : (least values).isFinite = true) {log10 : Float → Float} {a b : Bin} {i : ℕ}
    (hi : i + 1 < 50) (hastart : a.start = binEdge values binCount i)
    (hastop : a.stop = binEdge values binCount (i + 1))
    (hbstart : b.start = binEdge values binCount (i + 1))
    (hbstop : b.stop = binEdge values binCount (i + 1 + 1))
    (halog : real a.width < 3 / 100 → FollowsLog log10 a.width)
    (hblog : real b.width < 3 / 100 → FollowsLog log10 b.width) :
    ¬a.Alike log10 b := by
  rintro (⟨-, -, -, hnumber⟩ | ⟨hinfinite, -, -, -⟩)
  · have ha := near_shown hwide hleast hastart hastop (by omega) halog
    have hb := near_shown hwide hleast hbstart hbstop hi hblog
    have hlow := hwide.wide
    rw [hnumber] at ha
    have h1 := abs_le.mp ha
    have h2 := abs_le.mp hb
    push_cast at h2
    norm_num at hlow
    linarith
  · exact hinfinite (near_center hwide hleast hastart hastop (by omega)).isFinite

theorem defaultBinCount_le (n : ℕ) : defaultBinCount n ≤ 50 := by
  unfold defaultBinCount
  omega

/-- No two neighbours of a histogram with wide bins are alike. -/
theorem isChain_not_alike {values : List Float} (hfinite : ∀ v ∈ values, v.isFinite = true)
    {binCount : ℕ} (hcount : binCount ≤ 50) (hwide : AreWide values binCount)
    {log10 : Float → Float} (hlog : ∀ bin ∈ histogram values binCount,
      real bin.width < 3 / 100 → FollowsLog log10 bin.width) :
    (histogram values binCount).IsChain fun a b => ¬a.Alike log10 b := by
  rcases eq_or_ne values [] with rfl | hne
  · exact List.isChain_nil
  have hleast := hfinite _ (least_mem hne hfinite)
  rw [List.isChain_iff_getElem]
  intro i hi
  obtain ⟨hastart, hastop⟩ := getElem_histogram (Nat.lt_of_succ_lt hi)
  obtain ⟨hbstart, hbstop⟩ := getElem_histogram hi
  have hindex : i + 1 < 50 := by
    rw [length_histogram hne] at hi
    omega
  exact not_alike hwide hleast hindex hastart hastop hbstart hbstop
    (hlog _ (List.getElem_mem _)) (hlog _ (List.getElem_mem _))

end Statistics

namespace SeriesRequest

open Statistics

def values (request : SeriesRequest) (rows : Table) : List Float :=
  rows.filterMap fun row => row.number? request.x.field

def bins (request : SeriesRequest) (rows : Table) : List Bin :=
  histogram (request.values rows) (defaultBinCount (request.values rows).length)

/-- Neighbouring bins share a label if and only if their middles are written alike. Wide bins do not,
as long as the logarithms of their widths are not far off. -/
theorem bin_labels_apart (request : SeriesRequest) (rows : Table) :
    (request.histogramSeries rows).categories =
        some ((request.bins rows).map (Bin.label Float.log10)) ∧
      ∀ log10 : Float → Float,
        (((request.bins rows).map (Bin.label log10)).IsChain (· ≠ ·) ↔
          (request.bins rows).IsChain fun a b => ¬a.Alike log10 b) ∧
        (AreWide (request.values rows) (defaultBinCount (request.values rows).length) →
          (∀ bin ∈ request.bins rows, real bin.width < 3 / 100 → FollowsLog log10 bin.width) →
          ((request.bins rows).map (Bin.label log10)).IsChain (· ≠ ·)) := by
  refine ⟨rfl, fun log10 => ⟨Bin.isChain_label_iff log10 _, fun hwide hlog => ?_⟩⟩
  have hfinite : ∀ v ∈ request.values rows, v.isFinite = true := by
    intro v hv
    obtain ⟨row, -, hrow⟩ := List.mem_filterMap.mp hv
    exact Row.isFinite_number? hrow
  exact (Bin.isChain_label_iff log10 _).mpr
    (isChain_not_alike hfinite (defaultBinCount_le _) hwide hlog)

def lengths : SeriesRequest where
  chartType := .histogram
  x := ⟨"length", .quantitative, none⟩
  y := ⟨"weight", .quantitative, none⟩
  group := none
  trendline := false

theorem logb_two_bounds : 3 / 10 ≤ Real.logb 10 2 ∧ Real.logb 10 2 ≤ 1 / 3 := by
  constructor
  · have hthousand : Real.logb 10 (10 ^ 3) ≤ Real.logb 10 (2 ^ 10) :=
      Real.logb_le_logb_of_le (by norm_num) (by norm_num) (by norm_num)
    rw [Real.logb_pow, Real.logb_pow, Real.logb_self_eq_one (by norm_num)] at hthousand
    norm_num at hthousand
    linarith
  · have hten : Real.logb 10 (2 ^ 3) ≤ Real.logb 10 10 :=
      Real.logb_le_logb_of_le (by norm_num) (by norm_num) (by norm_num)
    rw [Real.logb_pow, Real.logb_self_eq_one (by norm_num)] at hten
    norm_num at hten
    linarith

/-- Two bins of width `2 ^ -9`, with the double that is next to its logarithm. -/
theorem bin_labels_apart_lengths :
    let rows : Table := [
      [("length", .number (.integer 0))], [("length", .number (.real 0.00390625))]]
    let log10 : Float → Float := fun _ => -2.709269960975831
    AreWide (lengths.values rows) (defaultBinCount (lengths.values rows).length) ∧
      (∀ bin ∈ lengths.bins rows, real bin.width < 3 / 100 → FollowsLog log10 bin.width) ∧
      ((lengths.bins rows).map (Bin.label log10)).IsChain (· ≠ ·) := by
  intro rows log10
  have hreal : real 0.001953125 = 2 ^ (-9 : ℤ) := by
    have hparts : parts 0.001953125 = .finite .positive (2 ^ 52) (-61) (by decide) := rfl
    rw [real_of_parts hparts]
    norm_num
  have hwidth : binWidth (lengths.values rows) (defaultBinCount (lengths.values rows).length) =
      0.001953125 := by decide +kernel
  have hleast : least (lengths.values rows) = 0 := by decide +kernel
  have hwide : AreWide (lengths.values rows)
      (defaultBinCount (lengths.values rows).length) := by
    refine ⟨?_, ?_, ?_⟩
    · rw [hwidth, hreal]
      norm_num
    · rw [hwidth, hreal]
      exact zpow_two_le (by norm_num)
    · rw [hleast, real_zero, abs_zero, hwidth, hreal]
      positivity
  have hwidths : (lengths.bins rows).map Bin.width = [0.001953125, 0.001953125] := by
    decide +kernel
  have hlog : ∀ bin ∈ lengths.bins rows, real bin.width < 3 / 100 →
      FollowsLog log10 bin.width := by
    intro bin hbin _
    have hmem : bin.width ∈ (lengths.bins rows).map Bin.width := List.mem_map_of_mem hbin
    have hbinWidth : bin.width = 0.001953125 := by
      rw [hwidths] at hmem
      simpa using hmem
    have hparts : parts 2.709269960975831 =
        .finite .positive 6100733593348415 (-51) (by decide) := rfl
    have hfinite : Float.isFinite (-2.709269960975831) = true := by decide +kernel
    obtain ⟨hlow, hhigh⟩ := logb_two_bounds
    refine ⟨hfinite, ?_⟩
    have hlogb : Real.logb 10 (2 ^ (-9 : ℤ)) = -9 * Real.logb 10 2 := by
      rw [zpow_neg, Real.logb_inv, zpow_ofNat, Real.logb_pow]
      norm_num
    rw [hbinWidth, hreal, hlogb, real_neg, real_of_parts hparts, abs_le]
    norm_num
    constructor <;> linarith
  exact ⟨hwide, hlog, ((bin_labels_apart lengths rows).2 log10).2 hwide hlog⟩

/-- Twelve places are not enough for two bins of width `5 / 10 ^ 15`. -/
theorem bin_labels_meet :
    let rows : Table := [
      [("length", .number (.integer 0))], [("length", .number (.real 1e-14))]]
    (lengths.histogramSeries rows).categories = some ["0", "0"] ∧
      ¬["0", "0"].IsChain (· ≠ ·) := by
  intro rows
  have hcenters : (lengths.bins rows).map Bin.center = [2.5e-15, 7.5e-15] := by decide +kernel
  have hzero : ∀ center ∈ [2.5e-15, 7.5e-15], ∀ places ∈ List.range' 2 11,
      Decimal.trimPlaces (Decimal.fixed places center) = "0" := by decide +kernel
  have hlabels : (lengths.bins rows).map (Bin.label Float.log10) =
      (lengths.bins rows).map fun _ => "0" := by
    refine List.map_congr_left fun bin hbin => hzero _ ?_ _ ?_
    · rw [← hcenters]
      exact List.mem_map_of_mem hbin
    · have hlow := Bin.two_le_places Float.log10 bin
      have hhigh := Bin.places_le_twelve Float.log10 bin
      exact List.mem_range'_1.mpr ⟨hlow, by omega⟩
  have hlength : (lengths.bins rows).length = 2 := by
    simpa using congrArg List.length hcenters
  refine ⟨?_, by decide⟩
  change some ((lengths.bins rows).map (Bin.label Float.log10)) = _
  rw [hlabels, List.map_const', hlength]
  rfl

end SeriesRequest

end ChartCompiler
