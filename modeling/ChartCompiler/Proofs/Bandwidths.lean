import ChartCompiler.Proofs.Densities

/-!
# Bandwidths of moderate data

The rule of thumb neither overflows nor underflows on values of moderate size: a spread that is not
zero is at least the root of the least double, and the quartiles are asked to be equal or not too
close together.
-/

namespace ChartCompiler

open Double Float.Model Float.Model.UnpackedFloat

namespace Statistics

/-- Square roots that are not zero are not too small. -/
theorem sqrt_cases {x : Float} (hroot : (Float.sqrt x).isFinite = true) :
    real (Float.sqrt x) = 0 ∨ 2 ^ (-537 : ℤ) ≤ real (Float.sqrt x) := by
  have hfinite := isFinite_of_sqrt hroot
  have hnonneg : 0 ≤ real x := by
    rcases parts_cases hfinite with ⟨t, -, hreal⟩ | ⟨t, m, e, hm, hparts, hreal, -⟩
    · rw [hreal]
    · cases t with
      | positive =>
          rw [hreal]
          exact magnitude_nonneg m e
      | negative =>
          have hresult : (UnpackedFloat.sqrt Format.binary64 (parts x)).isFinite = true :=
            isFinite_pack hroot
          rw [hparts] at hresult
          exact absurd hresult Bool.false_ne_true
  have hrounds := rounds_sqrt hfinite hnonneg
  rw [hrounds.real_of_isFinite hroot]
  rcases hnonneg.eq_or_lt with hzero | hpos
  · left
    rw [← hzero, Real.sqrt_zero, nearest_zero]
  · right
    refine le_nearest (isDouble_zpow (by norm_num)) (Real.le_sqrt_of_sq_le ?_)
    -- The least positive double is the square of this bound.
    refine (le_of_eq ?_).trans (finest_le_of_pos (isDouble_real hfinite) hpos)
    rw [finest, twoPow, sq, ← zpow_two_add]
    norm_num

theorem real_le_of_bounded {x : Float} {a : ℕ} (hx : Bounded x a) : real x ≤ 2 ^ (a : ℤ) := by
  rw [zpow_natCast]
  exact (le_abs_self _).trans hx.within

/-! ## Positive numbers between powers of two -/

/-- A double between two powers of two. -/
structure IsSized (x : Float) (a b : ℤ) : Prop where
  isFinite : x.isFinite = true
  low : 2 ^ a ≤ real x
  high : real x ≤ 2 ^ b

namespace IsSized

variable {x y : Float} {a b c d : ℤ}

theorem pos (hx : IsSized x a b) : 0 < real x :=
  (zpow_two_pos a).trans_le hx.low

theorem mono (hx : IsSized x a b) (hca : c ≤ a) (hbd : b ≤ d) : IsSized x c d :=
  ⟨hx.isFinite, (zpow_two_le hca).trans hx.low, hx.high.trans (zpow_two_le hbd)⟩

theorem of_rounds {r : ℝ} (hx : Rounds x r) (hlow : 2 ^ a ≤ r) (hhigh : r ≤ 2 ^ b)
    (ha : -1074 ≤ a) (hab : a ≤ b) (hb : b < 1024) : IsSized x a b := by
  have hlimit : (2 : ℝ) ^ b < limit := zpow_lt_limit hb
  obtain ⟨hfinite, hge, hle⟩ := hx.between (isDouble_zpow ha) (isDouble_zpow (ha.trans hab))
    ((neg_lt_zero.mpr limit_pos).trans (zpow_two_pos a)) hlimit hlow hhigh
  exact ⟨hfinite, hge, hle⟩

theorem mul (hx : IsSized x a b) (hy : IsSized y c d) (hab : a ≤ b) (hcd : c ≤ d)
    (hlow : -1074 ≤ a + c) (hhigh : b + d < 1024) : IsSized (x * y) (a + c) (b + d) := by
  refine of_rounds (rounds_mul hx.isFinite hy.isFinite) ?_ ?_ hlow (by omega) hhigh
  · rw [zpow_two_add]
    exact mul_le_mul hx.low hy.low (zpow_two_pos c).le hx.pos.le
  · rw [zpow_two_add]
    exact mul_le_mul hx.high hy.high hy.pos.le (zpow_two_pos b).le

end IsSized

section Bandwidth

variable {p : Platform} (hp : p.IsFaithful) {values : List Float}
  (hvalues : ∀ v ∈ values, Bounded v 480) (hcount : values.length ≤ 2 ^ 50)

/-- What the bandwidth is in proportion to. -/
theorem Platform.bandwidth_cases (p : Platform) (values : List Float) :
    p.bandwidth values = 1 ∨ 2 ≤ values.length ∧ ∃ scale, ¬scale ≤ 0 ∧
      (scale = standardDeviation values ∨
        0 < quartileRange values ∧ scale = quartileRange values / 1.34) ∧
      p.bandwidth values = 0.9 * scale * p.pow (size values) (-0.2) := by
  unfold bandwidth
  dsimp only
  split_ifs with hfew hrange hscale hscale
  · exact .inl rfl
  · exact .inl rfl
  · refine .inr ⟨not_lt.mp hfew, _, hscale, ?_, rfl⟩
    rcases lesser_cases (standardDeviation values) (quartileRange values / 1.34) with heq | heq
    · exact .inl heq
    · exact .inr ⟨hrange, heq⟩
  · exact .inl rfl
  · exact .inr ⟨not_lt.mp hfew, _, hscale, .inl rfl, rfl⟩

omit hvalues hcount in
theorem sized_nineTenths : IsSized 0.9 (-1) 0 := by
  have hparts : parts 0.9 = .finite .positive 8106479329266893 (-53) (by decide) := rfl
  refine ⟨rfl, ?_, ?_⟩
  · rw [real_of_parts hparts]
    norm_num
  · rw [real_of_parts hparts]
    norm_num

omit hvalues hcount in
theorem real_fifth : -1 ≤ real (-0.2) ∧ real (-0.2) ≤ 0 := by
  have hparts : parts 0.2 = .finite .positive 7205759403792794 (-55) (by decide) := rfl
  have hneg : real (-0.2) = -real 0.2 := real_neg 0.2
  rw [hneg, real_of_parts hparts]
  norm_num

omit hvalues in
include hp hcount in
/-- What the number of values contributes. -/
theorem sized_pow (hmany : 2 ≤ values.length) :
    IsSized (p.pow (size values) (-0.2)) (-51) 1 := by
  obtain ⟨hlow, hhigh⟩ := real_fifth
  obtain ⟨hfinite, hreal⟩ : (size values).isFinite = true ∧ real (size values) = values.length :=
    exact_ofNat (hcount.trans (by norm_num))
  have hone : (1 : ℝ) ≤ values.length := by exact_mod_cast (by omega : 1 ≤ values.length)
  have hmost : (values.length : ℝ) ≤ 2 ^ (50 : ℤ) := by exact_mod_cast hcount
  have hpos : 0 < size values := (real_lt_real_iff rfl hfinite).mpr (by
    rw [real_zero, hreal]
    linarith)
  have habove : real (size values) ^ real (-0.2) ≤ 1 := by
    rw [hreal]
    exact Real.rpow_le_one_of_one_le_of_nonpos hone hhigh
  have hbelow : 2 ^ (-50 : ℤ) ≤ real (size values) ^ real (-0.2) := by
    rw [hreal]
    calc
      (2 : ℝ) ^ (-50 : ℤ) = (2 ^ (50 : ℤ))⁻¹ := zpow_neg 2 50
      _ ≤ (values.length : ℝ)⁻¹ := inv_anti₀ (by linarith) hmost
      _ = (values.length : ℝ) ^ (-1 : ℝ) := (Real.rpow_neg_one _).symm
      _ ≤ _ := Real.rpow_le_rpow_of_exponent_le hone hlow
  obtain ⟨hresult, herror⟩ := hp.pow_near _ _ hfinite rfl hpos
    ((zpow_two_le (by norm_num)).trans hbelow) (habove.trans (one_le_zpow₀ one_le_two (by norm_num)))
  obtain ⟨hunder, hover⟩ := abs_le.mp herror
  norm_num at hbelow
  refine ⟨hresult, ?_, ?_⟩
  · norm_num
    linarith
  · norm_num
    linarith

include hvalues hcount

theorem sized_standardDeviation (hmany : 2 ≤ values.length)
    (hspread : ¬standardDeviation values ≤ 0) :
    IsSized (standardDeviation values) (-537) 506 := by
  have hbounded := bounded_standardDeviation hvalues hcount (by norm_num)
  refine ⟨hbounded.isFinite, ?_, real_le_of_bounded hbounded⟩
  rw [real_le_real_iff hbounded.isFinite rfl, real_zero] at hspread
  rw [standardDeviation, if_neg hmany.not_gt] at hspread hbounded ⊢
  rcases sqrt_cases hbounded.isFinite with hzero | hlarge
  · exact absurd hzero.le hspread
  · exact hlarge

theorem bounded_quartileRange : Bounded (quartileRange values) 482 :=
  (bounded_quantile hvalues hcount (p := 0.75) rfl (by norm_num)).sub
    (bounded_quantile hvalues hcount (p := 0.25) rfl (by norm_num)) (by norm_num)

theorem sized_quartileScale (hlow : 2 ^ (-800 : ℤ) ≤ real (quartileRange values)) :
    IsSized (quartileRange values / 1.34) (-801) 482 := by
  have hparts : parts 1.34 = .finite .positive 6034823500676465 (-52) (by decide) := rfl
  have hdivisor : 1 ≤ real 1.34 ∧ real 1.34 ≤ 2 := by
    rw [real_of_parts hparts]
    norm_num
  have hrange := bounded_quartileRange hvalues hcount
  have hhigh : real (quartileRange values) ≤ 2 ^ (482 : ℤ) :=
    real_le_of_bounded hrange
  have hpos : 0 < real 1.34 := by linarith
  have hnonneg : 0 ≤ real (quartileRange values) := (zpow_two_pos _).le.trans hlow
  refine .of_rounds (rounds_div hrange.isFinite rfl hpos.ne') ?_ ?_ (by norm_num) (by norm_num)
    (by norm_num)
  · rw [le_div_iff₀ hpos]
    calc
      (2 : ℝ) ^ (-801 : ℤ) * real 1.34 ≤ 2 ^ (-801 : ℤ) * 2 := by gcongr; exact hdivisor.2
      _ = 2 ^ (-801 + 1 : ℤ) := by rw [zpow_two_add, zpow_one]
      _ ≤ _ := hlow
  · exact (div_le_self hnonneg hdivisor.1).trans hhigh

include hp

/-- Values of moderate size have a bandwidth of moderate size, unless their quartiles are different
and very close. -/
theorem IsModerate.of_values
    (hrange : 0 < quartileRange values → 2 ^ (-800 : ℤ) ≤ real (quartileRange values)) :
    IsModerate values (p.bandwidth values) := by
  have hsized : IsSized (p.bandwidth values) (-853) 507 := by
    rcases p.bandwidth_cases values with hone | ⟨hmany, scale, hscale, hcases, heq⟩
    · rw [hone]
      refine ⟨rfl, ?_, ?_⟩
      · rw [real_unit]
        exact zpow_le_one_of_nonpos₀ one_le_two (by norm_num)
      · rw [real_unit]
        exact one_le_zpow₀ one_le_two (by norm_num)
    · have hspread : IsSized scale (-801) 506 := by
        rcases hcases with rfl | ⟨hpositive, rfl⟩
        · exact (sized_standardDeviation hvalues hcount hmany hscale).mono (by norm_num) le_rfl
        · exact (sized_quartileScale hvalues hcount (hrange hpositive)).mono le_rfl (by norm_num)
      rw [heq]
      exact (sized_nineTenths.mul hspread (by norm_num) (by norm_num) (by norm_num)
        (by norm_num)).mul (sized_pow hp hcount hmany) (by norm_num) (by norm_num) (by norm_num)
          (by norm_num)
  have hwidth : Bounded (p.bandwidth values) 507 := by
    refine ⟨hsized.isFinite, ?_⟩
    rw [abs_of_pos hsized.pos]
    exact_mod_cast hsized.high
  exact ⟨fun v hv => (hvalues v hv).mono (by norm_num), hcount, hwidth.mono (by norm_num),
    (zpow_two_le (by norm_num)).trans hsized.low⟩

end Bandwidth

end Statistics

end ChartCompiler
