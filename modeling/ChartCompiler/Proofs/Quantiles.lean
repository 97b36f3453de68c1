import ChartCompiler.Plot.ErrorBar
import ChartCompiler.Proofs.Double.Quarters
import ChartCompiler.Proofs.Whiskers

/-!
# Quantiles in order

A quantile between two values is their weighted mean, computed with four roundings. Quantiles of
ascending data are finite, ascend up to five units in the last place, and leave the range of the
data by one unit at most: equal values may get different quantiles. The quartiles are in order
nevertheless, unless the data are two neighbouring doubles, which round to each other.
-/

namespace ChartCompiler

namespace Double

/-- What a double has behind the point is a double. -/
theorem isDouble_fract {r : ℝ} (hr : IsDouble r) (hpos : 0 ≤ r) : IsDouble (Int.fract r) := by
  obtain ⟨m, e, hm, he, rfl⟩ := hr
  have hmpos : 0 ≤ m := by exact_mod_cast nonneg_of_mul_nonneg_left hpos (zpow_two_pos e)
  lift m to ℕ using hmpos
  rcases le_or_gt 0 e with hwhole | hbehind
  · obtain ⟨k, hk⟩ := exists_intCast_mul_zpow hwhole m
    rw [hk, zpow_zero, mul_one, Int.fract_intCast]
    exact isDouble_zero
  · obtain ⟨d, rfl⟩ : ∃ d : ℕ, e = -d := ⟨(-e).toNat, by omega⟩
    have hquotient : ((m : ℤ) : ℝ) * 2 ^ (-d : ℤ) = (m : ℝ) / (2 ^ d : ℕ) := by
      rw [zpow_neg, zpow_natCast]
      push_cast
      rfl
    rw [hquotient, Int.fract_div_natCast_eq_div_natCast_mod]
    refine ⟨(m % 2 ^ d : ℕ), -d, ?_, he, ?_⟩
    · rw [Nat.abs_cast] at hm ⊢
      exact lt_of_le_of_lt (by exact_mod_cast Nat.mod_le m _) hm
    · rw [zpow_neg, zpow_natCast]
      push_cast
      rfl

end Double

open Double

namespace Statistics

/-! ## Weighted means -/

theorem IsPart.isShare {w : Float} (hw : IsPart w) : IsShare (real w) :=
  ⟨isDouble_real hw.isFinite, hw.nonneg, hw.le_one⟩

theorem real_largest : real largest = most := by
  have hlargest : parts largest = .finite .positive (2 ^ 53 - 1) 971 (by decide) := rfl
  rw [real_of_parts hlargest, most_eq, ← sub_one_mul, twoPow]
  norm_num

/-- Means of finite numbers are finite, and rounded four times. -/
theorem real_weightedMean {a b w : Float} (ha : a.isFinite = true) (hb : b.isFinite = true)
    (hw : IsPart w) : (a * (1 - w) + b * w).isFinite = true ∧
      real (a * (1 - w) + b * w) =
        mixed (nearest (1 - real w)) (real w) (real a) (real b) := by
  have hrest : real (1 - w) = nearest (1 - real w) := by
    rw [(rounds_sub (x := 1) rfl hw.isFinite).real_of_isFinite hw.rest.isFinite, real_unit]
  have hfirst := hw.rest.isFinite_mul ha
  have hsecond := hw.isFinite_mul hb
  have hsum := rounds_add hfirst hsecond
  rw [(rounds_mul ha hw.rest.isFinite).real_of_isFinite hfirst,
    (rounds_mul hb hw.isFinite).real_of_isFinite hsecond, hrest] at hsum
  have hbound := abs_mixed_le_most hw.isShare (real_largest ▸ abs_real_le_largest ha)
    (real_largest ▸ abs_real_le_largest hb)
  have hfits := hbound.trans_lt most_lt_limit
  exact ⟨hsum.isFinite hfits, hsum.real_eq hfits⟩

/-! ## Values between ranks -/

/-- The number at a rank between neighbours, as it is computed. -/
noncomputable def meanAt (data : List Float) (r : ℝ) : ℝ :=
  mixed (nearest (1 - Int.fract r)) (Int.fract r) (real (data.getD ⌊r⌋₊ 0))
    (real (data.getD ⌈r⌉₊ 0))

/-- The number at a rank between neighbours, without rounding. -/
noncomputable def interpolated (data : List Float) (r : ℝ) : ℝ :=
  real (data.getD ⌊r⌋₊ 0) * (1 - Int.fract r) + real (data.getD ⌈r⌉₊ 0) * Int.fract r

theorem mixed_whole {a : ℝ} (ha : IsDouble a) (b : ℝ) : mixed 1 0 a b = a := by
  rw [mixed, mul_one, mul_zero, nearest_zero, add_zero, nearest_of_isDouble ha,
    nearest_of_isDouble ha]

section Finite

variable {data : List Float} (hfinite : ∀ v ∈ data, v.isFinite = true)
include hfinite

theorem real_valueAt {rank : Float} (hrank : rank.isFinite = true) (hlow : 0 ≤ real rank)
    (hhigh : real rank ≤ 2 ^ 53) : (valueAt data rank).isFinite = true ∧
      real (valueAt data rank) = meanAt data (real rank) := by
  have hget := forall_getD hfinite rfl
  have hlarge : real rank ≤ 2 ^ (63 : ℤ) := hhigh.trans (by norm_num)
  have hfloor := floorNat_eq_floor hrank hlarge
  have hceil := ceilNat_eq_ceil hrank hhigh
  have hfract : Int.fract (real rank) = real rank - ⌊real rank⌋₊ := by
    rw [natCast_floor_eq_intCast_floor hlow]
    rfl
  unfold valueAt meanAt
  dsimp only
  rw [← hfloor, ← hceil]
  split_ifs with hwhole
  · have hzero : Int.fract (real rank) = 0 := by
      rw [hfloor, hceil] at hwhole
      have habove := Nat.le_ceil (real rank)
      have hbelow := Nat.floor_le hlow
      rw [← hwhole] at habove
      rw [hfract]
      linarith
    rw [hzero, sub_zero, nearest_of_isDouble isDouble_one, mixed_whole (isDouble_real (hget _))]
    exact ⟨hget _, rfl⟩
  · obtain ⟨hcount, hreal⟩ := real_ofNat_floorNat hrank hlow hlarge
    have hdifference := rounds_sub hrank hcount
    rw [hreal, ← hfract] at hdifference
    have hexact := (hdifference.exact (isDouble_fract (isDouble_real hrank) hlow) (by
      rw [abs_of_nonneg (Int.fract_nonneg _)]
      exact (Int.fract_lt_one _).trans one_lt_limit)).2
    rw [← hexact]
    exact real_weightedMean (hget _) (hget _) (isPart_weight hrank hlow hlarge)

end Finite

/-! ## Ranks -/

theorem clamp_eq_self {p : Float} (hp : p.isFinite = true) (hlow : 0 ≤ p) (hhigh : p ≤ 1) :
    clamp 0 1 p = p := by
  rw [real_le_real_iff rfl hp] at hlow
  rw [real_le_real_iff hp rfl] at hhigh
  have hbelow : ¬p < 0 := by
    rw [real_lt_real_iff hp rfl]
    exact hlow.not_gt
  have habove : ¬1 < p := by
    rw [real_lt_real_iff rfl hp]
    exact hhigh.not_gt
  simp only [clamp, if_neg hbelow, if_neg habove]

/-- Ranks lie between the first and the last one. -/
theorem rank_between {p : Float} (hp : p.isFinite = true) {m : ℕ} (hm : m ≤ 2 ^ 53) :
    (quartileRank p m).isFinite = true ∧ 0 ≤ real (quartileRank p m) ∧
      real (quartileRank p m) ≤ m := by
  obtain ⟨hpart, hlow, hhigh⟩ := clamp_unit hp
  obtain ⟨hcount, hreal⟩ := exact_ofNat hm
  have hpos : (0 : ℝ) ≤ m := m.cast_nonneg
  refine (rounds_mul hpart hcount).between isDouble_zero (isDouble_natCast hm)
    (neg_neg_of_pos limit_pos) ((le_abs_self _).trans_lt (natCast_lt_limit (by omega))) ?_ ?_
  · rw [hreal]
    exact mul_nonneg hlow hpos
  · rw [hreal]
    exact mul_le_of_le_one_left hpos hhigh

theorem rank_mono {p q : Float} (hp : p.isFinite = true) (hq : q.isFinite = true) (hzero : 0 ≤ p)
    (hpq : p ≤ q) (hone : q ≤ 1) {m : ℕ} (hm : m ≤ 2 ^ 53) :
    real (quartileRank p m) ≤ real (quartileRank q m) := by
  obtain ⟨hpfinite, -, -⟩ := rank_between hp hm
  obtain ⟨hqfinite, -, -⟩ := rank_between hq hm
  unfold quartileRank at hpfinite hqfinite ⊢
  rw [clamp_eq_self hp hzero (le_of_le_of_le hpq hone)] at hpfinite ⊢
  rw [clamp_eq_self hq (le_of_le_of_le hzero hpq) hone] at hqfinite ⊢
  obtain ⟨hcount, hreal⟩ := exact_ofNat hm
  rw [(rounds_mul hp hcount).real_of_isFinite hpfinite,
    (rounds_mul hq hcount).real_of_isFinite hqfinite, hreal]
  exact nearest_mono (mul_le_mul_of_nonneg_right ((real_le_real_iff hp hq).mp hpq) m.cast_nonneg)

/-! ## Means at ranks -/

section Rank

variable {r : ℝ} (hr : IsDouble r) (hlow : 0 ≤ r)
include hlow

theorem ceil_eq_succ (hpos : 0 < Int.fract r) : ⌈r⌉₊ = ⌊r⌋₊ + 1 := by
  have hfloor := natCast_floor_eq_intCast_floor hlow
  rw [Int.fract, ← hfloor] at hpos
  exact le_antisymm (Nat.ceil_le_floor_add_one r) (Nat.lt_ceil.mpr (by linarith))

include hr

theorem isShare_fract : IsShare (Int.fract r) :=
  ⟨isDouble_fract hr hlow, Int.fract_nonneg r, (Int.fract_lt_one r).le⟩

/-- The four roundings cost two and a half units of the largest magnitude. -/
theorem abs_meanAt_sub_interpolated_le {data : List Float} {m : ℝ}
    (hdata : ∀ i < data.length, |real (data.getD i 0)| ≤ |m|) (hceil : ⌈r⌉₊ < data.length) :
    |meanAt data r - interpolated data r| ≤ 5 / 2 * ulp m :=
  abs_mixed_sub_le (isShare_fract hr hlow) (hdata _ ((Nat.floor_le_ceil r).trans_lt hceil))
    (hdata _ hceil)

end Rank

/-! ## Quantiles of ascending data -/

section Percentile

variable {data : List Float} (hne : data ≠ []) (hfinite : ∀ v ∈ data, v.isFinite = true)
  (hcount : data.length ≤ 2 ^ 53)
include hne hfinite hcount

theorem real_percentile {p : Float} (hp : p.isFinite = true) :
    (percentile data p).isFinite = true ∧
      real (percentile data p) = meanAt data (real (quartileRank p (data.length - 1))) := by
  have hlast : data.length - 1 ≤ 2 ^ 53 := by omega
  obtain ⟨hrank, hlow, hhigh⟩ := rank_between hp hlast
  have hle : real (quartileRank p (data.length - 1)) ≤ 2 ^ 53 :=
    hhigh.trans (by exact_mod_cast hlast)
  match data, hne with
  | [only], _ =>
      have hzero : real (quartileRank p (List.length [only] - 1)) = 0 :=
        le_antisymm (by simpa using hhigh) hlow
      have honly := hfinite only (List.mem_singleton_self only)
      rw [hzero, meanAt, Int.fract_zero, sub_zero, nearest_of_isDouble isDouble_one,
        mixed_whole (isDouble_real (forall_getD hfinite rfl _)), Nat.floor_zero]
      exact ⟨honly, rfl⟩
  | first :: second :: rest, _ =>
      rw [percentile_eq_valueAt (by simp)]
      exact real_valueAt hfinite hrank hlow hle

omit hfinite in
/-- Both neighbours of a rank are in the data. -/
theorem ceil_rank_lt {p : Float} (hp : p.isFinite = true) :
    ⌈real (quartileRank p (data.length - 1))⌉₊ < data.length := by
  have hpos := List.length_pos_iff.mpr hne
  have hhigh := (rank_between hp (m := data.length - 1) (by omega)).2.2
  have hceil := Nat.ceil_le.mpr hhigh
  omega

end Percentile

section Ascending

variable {data : List Float} (hfinite : ∀ v ∈ data, v.isFinite = true)
  (hascending : data.Pairwise (· ≤ ·))
include hfinite hascending

theorem real_getD_le {i j : ℕ} (hij : i ≤ j) (hj : j < data.length) :
    real (data.getD i 0) ≤ real (data.getD j 0) := by
  have hi : i < data.length := by omega
  have hget := forall_getD hfinite rfl
  rcases hij.lt_or_eq with hlt | rfl
  · rw [← real_le_real_iff (hget i) (hget j), List.getD_eq_getElem _ _ hi,
      List.getD_eq_getElem _ _ hj]
    exact List.pairwise_iff_getElem.mp hascending i j hi hj hlt
  · exact le_rfl

section Rank

variable {r : ℝ} (hceil : ⌈r⌉₊ < data.length)
include hceil

theorem interpolated_between :
    real (data.getD ⌊r⌋₊ 0) ≤ interpolated data r ∧
      interpolated data r ≤ real (data.getD ⌈r⌉₊ 0) := by
  have hnext := real_getD_le hfinite hascending (Nat.floor_le_ceil r) hceil
  have hnonneg := Int.fract_nonneg r
  have hone := Int.fract_lt_one r
  unfold interpolated
  constructor <;> nlinarith

variable (hr : IsDouble r) (hlow : 0 ≤ r) {x : ℝ} (hx : IsDouble x)
include hr hlow hx

/-- What is below both neighbours is above their mean by one unit at most. -/
theorem le_meanAt (hbelow : x ≤ real (data.getD ⌊r⌋₊ 0)) : x - ulp x ≤ meanAt data r := by
  have hshare := isShare_fract hr hlow
  have hnext := real_getD_le hfinite hascending (Nat.floor_le_ceil r) hceil
  have hself := (abs_le.mp (abs_mixed_self_sub_le hshare hx)).1
  have hmono := mixed_mono hshare.rest.nonneg hshare.nonneg hbelow (hbelow.trans hnext)
  unfold meanAt
  linarith

theorem meanAt_le (habove : real (data.getD ⌈r⌉₊ 0) ≤ x) : meanAt data r ≤ x + ulp x := by
  have hshare := isShare_fract hr hlow
  have hnext := real_getD_le hfinite hascending (Nat.floor_le_ceil r) hceil
  have hself := (abs_le.mp (abs_mixed_self_sub_le hshare hx)).2
  have hmono := mixed_mono hshare.rest.nonneg hshare.nonneg (hnext.trans habove) habove
  unfold meanAt
  linarith

end Rank

/-- Without rounding the numbers at later ranks are no smaller. -/
theorem interpolated_mono {r s : ℝ} (hlow : 0 ≤ r) (hrs : r ≤ s) (hceil : ⌈s⌉₊ < data.length) :
    interpolated data r ≤ interpolated data s := by
  have hslow := hlow.trans hrs
  have hrceil : ⌈r⌉₊ < data.length := (Nat.ceil_mono hrs).trans_lt hceil
  have hr := interpolated_between hfinite hascending hrceil
  have hs := interpolated_between hfinite hascending hceil
  rcases (Nat.floor_mono hrs).lt_or_eq with hlt | heq
  · have hstep : ⌈r⌉₊ ≤ ⌊s⌋₊ := (Nat.ceil_le_floor_add_one r).trans hlt
    have hfloor : ⌊s⌋₊ < data.length := (Nat.floor_le_ceil s).trans_lt hceil
    exact hr.2.trans ((real_getD_le hfinite hascending hstep hfloor).trans hs.1)
  · -- Between the same two neighbours only the weights differ.
    have hrfloor := natCast_floor_eq_intCast_floor hlow
    have hsfloor := natCast_floor_eq_intCast_floor hslow
    rw [heq] at hrfloor
    have hfract : Int.fract r ≤ Int.fract s := by
      rw [Int.fract, Int.fract, ← hrfloor, ← hsfloor]
      linarith
    rcases (Int.fract_nonneg r).lt_or_eq with hpos | hzero
    · have hnext := real_getD_le hfinite hascending (Nat.floor_le_ceil s) hceil
      rw [ceil_eq_succ hslow (hpos.trans_le hfract)] at hnext
      rw [interpolated, interpolated, ceil_eq_succ hlow hpos,
        ceil_eq_succ hslow (hpos.trans_le hfract), heq]
      nlinarith
    · refine le_trans (le_of_eq ?_) hs.1
      rw [interpolated, ← hzero, heq, sub_zero, mul_one, mul_zero, add_zero]

section Ends

variable (hne : data ≠ [])

theorem head_le_getD {i : ℕ} (hi : i < data.length) :
    real (data.head hne) ≤ real (data.getD i 0) := by
  have hfirst := real_getD_le hfinite hascending (Nat.zero_le i) hi
  rwa [List.getD_eq_getElem _ _ (List.length_pos_iff.mpr hne), ← List.head_eq_getElem hne] at hfirst

theorem getD_le_getLast {i : ℕ} (hi : i < data.length) :
    real (data.getD i 0) ≤ real (data.getLast hne) := by
  have hlast := real_getD_le hfinite hascending (i := i) (j := data.length - 1) (by omega)
    (by omega)
  rwa [List.getD_eq_getElem data 0 (n := data.length - 1) (by omega),
    ← List.getLast_eq_getElem hne] at hlast

/-- The largest magnitude in ascending data is that of the first or that of the last value. -/
theorem abs_getD_le {i : ℕ} (hi : i < data.length) :
    |real (data.getD i 0)| ≤ max |real (data.head hne)| |real (data.getLast hne)| :=
  abs_le_max_abs_abs (head_le_getD hfinite hascending hne hi)
    (getD_le_getLast hfinite hascending hne hi)

variable (hcount : data.length ≤ 2 ^ 53) {p q : Float}
include hcount

/-- Quantiles leave the range of the data by one unit at most. -/
theorem percentile_between (hp : p.isFinite = true) :
    real (data.head hne) - ulp (real (data.head hne)) ≤ real (percentile data p) ∧
      real (percentile data p) ≤ real (data.getLast hne) + ulp (real (data.getLast hne)) := by
  obtain ⟨hrank, hlow, -⟩ := rank_between hp (m := data.length - 1) (by omega)
  have hceil := ceil_rank_lt hne hcount hp
  have hdouble := isDouble_real hrank
  rw [(real_percentile hne hfinite hcount hp).2]
  constructor
  · exact le_meanAt hfinite hascending hceil hdouble hlow
      (isDouble_real (hfinite _ (List.head_mem hne)))
      (head_le_getD hfinite hascending hne ((Nat.floor_le_ceil _).trans_lt hceil))
  · exact meanAt_le hfinite hascending hceil hdouble hlow
      (isDouble_real (hfinite _ (List.getLast_mem hne)))
      (getD_le_getLast hfinite hascending hne hceil)

/-- The quantile of a larger share is smaller by the errors of two interpolations at most. -/
theorem percentile_le_add (hp : p.isFinite = true) (hq : q.isFinite = true) (hzero : 0 ≤ p)
    (hpq : p ≤ q) (hone : q ≤ 1) :
    real (percentile data p) ≤ real (percentile data q) +
      5 * ulp (max |real (data.head hne)| |real (data.getLast hne)|) := by
  have hlast : data.length - 1 ≤ 2 ^ 53 := by omega
  have herror : ∀ {s : Float}, s.isFinite = true →
      |real (percentile data s) - interpolated data (real (quartileRank s (data.length - 1)))| ≤
        5 / 2 * ulp (max |real (data.head hne)| |real (data.getLast hne)|) := by
    intro s hs
    obtain ⟨hrank, hlow, -⟩ := rank_between hs hlast
    rw [(real_percentile hne hfinite hcount hs).2]
    exact abs_meanAt_sub_interpolated_le (isDouble_real hrank) hlow
      (fun i hi => (abs_getD_le hfinite hascending hne hi).trans (le_abs_self _))
      (ceil_rank_lt hne hcount hs)
  have hfirst := (abs_le.mp (herror hp)).2
  have hsecond := (abs_le.mp (herror hq)).1
  have hmono := interpolated_mono hfinite hascending (rank_between hp hlast).2.1
    (rank_mono hp hq hzero hpq hone hlast) (ceil_rank_lt hne hcount hq)
  linarith

end Ends

end Ascending

/-! ## Quartiles -/

/-- The rank of a quartile of few enough values is a number of quarters. -/
theorem real_quartileRank_eq {m : ℕ} (hm : m < 2 ^ 51) :
    real (quartileRank 0.25 m) = (m : ℕ) / (4 : ℕ) ∧
      real (quartileRank 0.75 m) = (3 * m : ℕ) / (4 : ℕ) := by
  obtain ⟨hcount, hreal⟩ := exact_ofNat (n := m) (by omega)
  have hexact : ∀ {x : Float} {k : ℕ}, k ≤ 3 → Rounds x ((k * m : ℕ) / (4 : ℕ)) →
      real x = (k * m : ℕ) / (4 : ℕ) := by
    intro x k hk hx
    have hbound : k * m ≤ 2 ^ 53 := (Nat.mul_le_mul hk hm.le).trans (by norm_num)
    have hquarters : ((k * m : ℕ) : ℝ) / (4 : ℕ) = ((k * m : ℕ) : ℤ) * 2 ^ (-2 : ℤ) := by
      push_cast
      norm_num
      ring
    refine (hx.exact ?_ ?_).2
    · rw [hquarters]
      exact isDouble_mul_zpow (by rw [Nat.abs_cast]; exact_mod_cast hbound) (by norm_num)
    · have hlimit := natCast_lt_limit (n := k * m) (by omega)
      rw [Nat.abs_cast] at hlimit
      rw [abs_of_nonneg (by positivity)]
      refine lt_of_le_of_lt (div_le_self (Nat.cast_nonneg _) ?_) hlimit
      norm_num
  have hlower : parts (clamp 0 1 0.25) = .finite .positive (2 ^ 52) (-54) (by decide) := rfl
  have hupper : parts (clamp 0 1 0.75) = .finite .positive (3 * 2 ^ 51) (-53) (by decide) := rfl
  constructor
  · have hproduct := rounds_mul (x := clamp 0 1 0.25) rfl hcount
    rw [real_of_parts hlower, hreal] at hproduct
    have hshare : (2 ^ 52 : ℕ) * (2 : ℝ) ^ (-54 : ℤ) * m = (1 * m : ℕ) / (4 : ℕ) := by
      norm_num
      ring
    rw [hshare] at hproduct
    have hquarter := hexact (by norm_num) hproduct
    rwa [one_mul] at hquarter
  · have hproduct := rounds_mul (x := clamp 0 1 0.75) rfl hcount
    rw [real_of_parts hupper, hreal] at hproduct
    have hshare : (3 * 2 ^ 51 : ℕ) * (2 : ℝ) ^ (-53 : ℤ) * m = (3 * m : ℕ) / (4 : ℕ) := by
      norm_num
      ring
    rw [hshare] at hproduct
    exact hexact le_rfl hproduct

theorem ceil_div_four (n : ℕ) : ⌈(n : ℝ) / (4 : ℕ)⌉₊ = (n + 3) / 4 := by
  have hfour : (0 : ℝ) < (4 : ℕ) := by norm_num
  refine le_antisymm (Nat.ceil_le.mpr ?_) ?_
  · rw [div_le_iff₀ hfour]
    exact_mod_cast (by omega : n ≤ (n + 3) / 4 * 4)
  · have hceil := (div_le_iff₀ hfour).mp (Nat.le_ceil ((n : ℝ) / (4 : ℕ)))
    have hle : n ≤ ⌈(n : ℝ) / (4 : ℕ)⌉₊ * 4 := by exact_mod_cast hceil
    omega

/-- At a number of quarters the weights are quarters. -/
theorem meanAt_quarters (data : List Float) {n i j k : ℕ} {v w : ℝ} (hn : n = 4 * i + j)
    (hj : j < 4 ∧ k = i + (j + 3) / 4 ∧ v = 1 - w ∧ w = j / 4) :
    meanAt data (n / (4 : ℕ)) = mixed v w (real (data.getD i 0)) (real (data.getD k 0)) := by
  obtain ⟨hj, hk, hv, hw⟩ := hj
  have hrest : nearest (1 - w) = v := by
    have hdouble := isDouble_mul_zpow (m := 4 - (j : ℕ)) (e := -2) (by rw [abs_le]; omega)
      (by norm_num)
    rw [hv]
    refine nearest_of_isDouble ?_
    convert hdouble using 1
    rw [hw, Int.cast_sub, Int.cast_natCast]
    norm_num
    ring
  have hfract : Int.fract ((n : ℝ) / (4 : ℕ)) = w := by
    rw [Int.fract_div_natCast_eq_div_natCast_mod, hw, show n % 4 = j by omega, Nat.cast_ofNat]
  rw [meanAt, hfract, hrest, Nat.floor_div_eq_div, ceil_div_four, show n / 4 = i by omega,
    show (n + 3) / 4 = k by omega]

/-- The values that quartiles lie between and the weights of these depend on the number of values
modulo four. -/
inductive QuartileMeans (x : ℕ → ℝ) : ℕ → ℝ → ℝ → Prop where
  | whole (q : ℕ) : QuartileMeans x (4 * q + 1) (x q) (x (3 * q))
  | outwards (q : ℕ) : QuartileMeans x (4 * q + 2) (mixed (3 / 4) (1 / 4) (x q) (x (q + 1)))
      (mixed (1 / 4) (3 / 4) (x (3 * q)) (x (3 * q + 1)))
  | halves (q : ℕ) : QuartileMeans x (4 * q + 3) (mixed (1 / 2) (1 / 2) (x q) (x (q + 1)))
      (mixed (1 / 2) (1 / 2) (x (3 * q + 1)) (x (3 * q + 2)))
  | inwards (q : ℕ) : QuartileMeans x (4 * q + 4) (mixed (1 / 4) (3 / 4) (x q) (x (q + 1)))
      (mixed (3 / 4) (1 / 4) (x (3 * q + 2)) (x (3 * q + 3)))

theorem quartileMeans {data : List Float} (hne : data ≠ [])
    (hfinite : ∀ v ∈ data, v.isFinite = true) (hcount : data.length ≤ 2 ^ 51) :
    QuartileMeans (fun i => real (data.getD i 0)) data.length (real (percentile data 0.25))
      (real (percentile data 0.75)) := by
  have hdouble : ∀ i, IsDouble (real (data.getD i 0)) := fun i =>
    isDouble_real (forall_getD hfinite rfl i)
  have hpos := List.length_pos_iff.mpr hne
  obtain ⟨hlower, hupper⟩ := real_quartileRank_eq (m := data.length - 1) (by omega)
  rw [(real_percentile hne hfinite (by omega) rfl).2,
    (real_percentile hne hfinite (by omega) rfl).2, hlower, hupper]
  obtain ⟨q, j, hj, hm⟩ : ∃ q j, j < 4 ∧ data.length = 4 * q + j + 1 :=
    ⟨(data.length - 1) / 4, (data.length - 1) % 4, Nat.mod_lt _ (by norm_num), by omega⟩
  rw [hm, Nat.add_sub_cancel]
  interval_cases j
  · rw [meanAt_quarters data (i := q) (j := 0) (v := 1) (w := 0) (k := q) (by omega) (by norm_num),
      meanAt_quarters data (i := 3 * q) (j := 0) (v := 1) (w := 0) (k := 3 * q) (by omega)
        (by norm_num), mixed_whole (hdouble q), mixed_whole (hdouble (3 * q))]
    exact .whole q
  · rw [meanAt_quarters data (i := q) (j := 1) (v := 3 / 4) (w := 1 / 4) (k := q + 1) (by omega)
        (by norm_num),
      meanAt_quarters data (i := 3 * q) (j := 3) (v := 1 / 4) (w := 3 / 4) (k := 3 * q + 1)
        (by omega) (by norm_num)]
    exact .outwards q
  · rw [meanAt_quarters data (i := q) (j := 2) (v := 1 / 2) (w := 1 / 2) (k := q + 1) (by omega)
        (by norm_num),
      meanAt_quarters data (i := 3 * q + 1) (j := 2) (v := 1 / 2) (w := 1 / 2) (k := 3 * q + 2)
        (by omega) (by norm_num)]
    exact .halves q
  · rw [meanAt_quarters data (i := q) (j := 3) (v := 1 / 4) (w := 3 / 4) (k := q + 1) (by omega)
        (by norm_num),
      meanAt_quarters data (i := 3 * q + 2) (j := 1) (v := 3 / 4) (w := 1 / 4) (k := 3 * q + 3)
        (by omega) (by norm_num)]
    exact .inwards q

/-- No double stands between the two. -/
def Neighbours (a b : Float) : Prop :=
  a < b ∧ ∀ c : Float, ¬(a < c ∧ c < b)

theorem isFinite_of_between {a b c : Float} (ha : a.isFinite = true) (hb : b.isFinite = true)
    (hac : a ≤ c) (hcb : c ≤ b) : c.isFinite = true := by
  obtain ⟨-, hnumber, hlow⟩ := (le_iff a c).mp hac
  obtain ⟨-, -, hhigh⟩ := (le_iff c b).mp hcb
  rw [value_of_isFinite ha] at hlow
  rw [value_of_isFinite hb] at hhigh
  by_contra hinfinite
  obtain ⟨s, hparts⟩ := parts_of_infinite hnumber hinfinite
  cases s with
  | positive =>
      rw [value_top hparts, top_le_iff] at hhigh
      exact EReal.coe_ne_top _ hhigh
  | negative =>
      rw [value_bot hparts, le_bot_iff] at hlow
      exact EReal.coe_ne_bot _ hlow

/-- Two values that are not neighbours have their quartiles in order. -/
theorem mixed_quarters_le_of_not_neighbours {a b : Float} (ha : a.isFinite = true)
    (hb : b.isFinite = true) (hab : real a ≤ real b) (hapart : ¬Neighbours a b) :
    mixed (3 / 4) (1 / 4) (real a) (real b) ≤ mixed (1 / 4) (3 / 4) (real a) (real b) := by
  rcases hab.lt_or_eq with hlt | heq
  · have hbetween : ∃ c, a < c ∧ c < b := by
      by_contra hnone
      exact hapart ⟨(real_lt_real_iff ha hb).mpr hlt, fun c hc => hnone ⟨c, hc⟩⟩
    obtain ⟨c, hac, hcb⟩ := hbetween
    have hc := isFinite_of_between ha hb (le_of_lt' hac) (le_of_lt' hcb)
    exact mixed_quarters_le (isDouble_real ha) (isDouble_real hb) (isDouble_real hc)
      ((real_lt_real_iff ha hc).mp hac) ((real_lt_real_iff hc hb).mp hcb)
  · have hself := mixed_quarters_self (isDouble_real hb)
    rw [heq, mixed_swap (1 / 4), hself]

/-- The quartiles of ascending values are in order. Those of two values lie between the same two
values, and only these can be too close to each other. -/
theorem lowerQuartile_le_upperQuartile {data : List Float} (hne : data ≠ [])
    (hfinite : ∀ v ∈ data, v.isFinite = true) (hcount : data.length ≤ 2 ^ 51)
    (hascending : data.Pairwise (· ≤ ·)) (hapart : ∀ a b, data = [a, b] → ¬Neighbours a b) :
    real (percentile data 0.25) ≤ real (percentile data 0.75) := by
  have hget := forall_getD hfinite rfl
  have hdouble : ∀ i, IsDouble (real (data.getD i 0)) := fun i => isDouble_real (hget i)
  have hstep {i j : ℕ} := real_getD_le hfinite hascending (i := i) (j := j)
  have hbetween {i : ℕ} (hi : i + 1 < data.length) :=
    mixed_quarters_between (hdouble i) (hdouble (i + 1)) (hstep (Nat.le_succ i) hi)
  have hmeans := quartileMeans hne hfinite hcount
  generalize hlength : data.length = n at hmeans
  generalize real (percentile data 0.25) = lower at hmeans ⊢
  generalize real (percentile data 0.75) = upper at hmeans ⊢
  cases hmeans with
  | whole q => exact hstep (by omega) (by omega)
  | outwards q =>
      rcases Nat.eq_zero_or_pos q with rfl | hmany
      · obtain ⟨a, b, rfl⟩ := List.length_eq_two.mp hlength
        exact mixed_quarters_le_of_not_neighbours (hget 0) (hget 1)
          (hstep zero_le_one (by norm_num)) (hapart a b rfl)
      · exact (hbetween (i := q) (by omega)).1.2.trans ((hstep (by omega) (by omega)).trans
          (hbetween (i := 3 * q) (by omega)).2.1)
  | halves q =>
      exact mixed_mono (by norm_num) (by norm_num) (hstep (by omega) (by omega))
        (hstep (by omega) (by omega))
  | inwards q =>
      exact (hbetween (i := q) (by omega)).2.2.trans ((hstep (by omega) (by omega)).trans
        (hbetween (i := 3 * q + 2) (by omega)).1.1)

/-- The bar of quartiles ends at the quartiles. -/
theorem ends_of_quartiles {e : ErrorBar} {category : String} {values : List Float}
    {point : ErrorBarPoint} (hkind : e.kind = .quartiles)
    (hpoint : ErrorBarPoint.of? e category values = some point) :
    point.low = percentile (sorted values) 0.25 ∧ point.high = percentile (sorted values) 0.75 := by
  obtain ⟨center, -, rfl⟩ := Option.map_eq_some_iff.mp hpoint
  rw [hkind]
  exact ⟨rfl, rfl⟩

/-- Quantiles of ascending values are finite, between the first and the last value up to a unit in
the last place, and in order up to five units of the larger one. The distance of the quartiles of
the same values in any order is not negative, and error bars of quartiles do not end below their
start, unless these values are two doubles with none between them. Lists have at most `2 ^ 51`
items. -/
theorem quantiles_in_order {data values : List Float} (hne : data ≠ [])
    (hfinite : ∀ v ∈ data, v.isFinite = true) (hcount : data.length ≤ 2 ^ 51)
    (hascending : data.Pairwise (· ≤ ·)) (hvalues : values.Perm data) :
    (∀ p : Float, 0 ≤ p → p ≤ 1 → (percentile data p).isFinite = true ∧
      real (data.head hne) - ulp (real (data.head hne)) ≤ real (percentile data p) ∧
      real (percentile data p) ≤ real (data.getLast hne) + ulp (real (data.getLast hne))) ∧
    (∀ p q : Float, 0 ≤ p → p ≤ q → q ≤ 1 → real (percentile data p) ≤ real (percentile data q) +
      5 * ulp (max |real (data.head hne)| |real (data.getLast hne)|)) ∧
    ((∀ a b, Neighbours a b → ¬values.Perm [a, b]) → 0 ≤ quartileRange values ∧
      ∀ {e category point}, e.kind = .quartiles →
        ErrorBarPoint.of? e category values = some point → point.low ≤ point.high) := by
  have hsize : data.length ≤ 2 ^ 53 := hcount.trans (by norm_num)
  refine ⟨fun p hzero hone => ?_, fun p q hzero hpq hone => ?_, fun hapart => ?_⟩
  · have hp := isFinite_of_between (a := 0) (b := 1) rfl rfl hzero hone
    exact ⟨(real_percentile hne hfinite hsize hp).1,
      percentile_between hfinite hascending hne hsize hp⟩
  · have hp := isFinite_of_between (a := 0) (b := 1) rfl rfl hzero (le_of_le_of_le hpq hone)
    have hq := isFinite_of_between (a := 0) (b := 1) rfl rfl (le_of_le_of_le hzero hpq) hone
    exact percentile_le_add hfinite hascending hne hsize hp hq hzero hpq hone
  · have hperm := (sorted_perm values).trans hvalues
    have hvaluesFinite : ∀ v ∈ values, v.isFinite = true := fun v hv =>
      hfinite v (hvalues.mem_iff.mp hv)
    have hsortedFinite := isFinite_of_mem_sorted hvaluesFinite
    have hsortedNe : sorted values ≠ [] := fun hnil =>
      hne (List.perm_nil.mp (hnil ▸ hperm.symm))
    have hsortedSize : (sorted values).length ≤ 2 ^ 51 := by rwa [hperm.length_eq]
    have horder := lowerQuartile_le_upperQuartile hsortedNe hsortedFinite hsortedSize
      (pairwise_le_sorted hvaluesFinite) (fun a b hab hneighbours =>
        hapart a b hneighbours (hab ▸ (sorted_perm values).symm))
    have hquartile {p : Float} (hp : p.isFinite = true) :=
      (real_percentile hsortedNe hsortedFinite (hsortedSize.trans (by norm_num)) hp).1
    constructor
    · refine (rounds_sub (hquartile rfl) (hquartile rfl)).ge rfl ?_
      rw [real_zero]
      linarith
    · intro e category point hkind hpoint
      obtain ⟨hlow, hhigh⟩ := ends_of_quartiles hkind hpoint
      rw [hlow, hhigh, real_le_real_iff (hquartile rfl) (hquartile rfl)]
      exact horder

theorem quantiles_in_order_powers :
    [1, 2, 4] ≠ ([] : List Float) ∧ (∀ v ∈ [1, 2, 4], Float.isFinite v = true) ∧
      ([1, 2, 4] : List Float).length ≤ 2 ^ 51 ∧ ([1, 2, 4] : List Float).Pairwise (· ≤ ·) ∧
      ([4, 1, 2] : List Float).Perm [1, 2, 4] ∧ 0 ≤ quartileRange [4, 1, 2] := by
  have hne : [1, 2, 4] ≠ ([] : List Float) := List.cons_ne_nil _ _
  have hfinite : ∀ v ∈ [1, 2, 4], Float.isFinite v = true := by decide +kernel
  have hlength : ([1, 2, 4] : List Float).length ≤ 2 ^ 51 := by decide
  have hascending : ([1, 2, 4] : List Float).Pairwise (· ≤ ·) := by decide +kernel
  have hvalues : ([4] ++ [1, 2] : List Float).Perm ([1, 2] ++ [4]) := List.perm_append_comm
  obtain ⟨-, -, hquartiles⟩ := quantiles_in_order hne hfinite hlength hascending hvalues
  refine ⟨hne, hfinite, hlength, hascending, hvalues, (hquartiles fun a b _ hpair => ?_).1⟩
  exact absurd hpair.length_eq (by simp)

/-- Two neighbours round to each other, so that their quartiles cross. Equal values round to a
smaller number. -/
theorem quartiles_cross :
    ([0.1, 0.10000000000000002] : List Float).Pairwise (· ≤ ·) ∧
      (∀ v ∈ [0.1, 0.10000000000000002], Float.isFinite v = true) ∧
      ¬percentile [0.1, 0.10000000000000002] 0.25 ≤ percentile [0.1, 0.10000000000000002] 0.75 ∧
      ¬0 ≤ quartileRange [0.1, 0.10000000000000002] ∧
      (∀ e category, e.kind = .quartiles →
        ∃ point, ErrorBarPoint.of? e category [0.1, 0.10000000000000002] = some point ∧
          ¬point.low ≤ point.high) ∧
      ¬0.1 ≤ percentile [0.1, 0.1] 0.29 := by
  have hsorted : sorted [0.1, 0.10000000000000002] = [0.1, 0.10000000000000002] :=
    BoxSummary.sorted_eq_self (by decide +kernel)
  have hcross : ¬percentile [0.1, 0.10000000000000002] 0.25 ≤
      percentile [0.1, 0.10000000000000002] 0.75 := by decide +kernel
  refine ⟨by decide +kernel, by decide +kernel, hcross, ?_, fun e category hkind => ?_,
    by decide +kernel⟩
  · unfold quartileRange
    rw [hsorted]
    decide +kernel
  · obtain ⟨point, hpoint⟩ : ∃ point,
        ErrorBarPoint.of? e category [0.1, 0.10000000000000002] = some point := ⟨_, rfl⟩
    obtain ⟨hlow, hhigh⟩ := ends_of_quartiles hkind hpoint
    refine ⟨point, hpoint, ?_⟩
    rw [hlow, hhigh, hsorted]
    exact hcross

end Statistics

end ChartCompiler
