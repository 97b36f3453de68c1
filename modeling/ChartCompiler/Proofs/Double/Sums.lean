import ChartCompiler.Proofs.Double.Quarters

/-!
# Sums of doubles

Once a sum is an infinity or NaN it stays one of them, so that a finite result has finite operands.
Places below the least unit do not arise in a sum, and so its rounding error is relative to it. Close
doubles are subtracted without any error.
-/

namespace ChartCompiler.Double

open Float.Model Float.Model.UnpackedFloat

/-! ## Finite results -/

theorem isFinite_pack {u : UnpackedFloat}
    (hu : (Float.ofModel (Float.Model.pack u)).isFinite = true) : u.isFinite = true := by
  cases u with
  | notANumber => exact absurd hu (by decide)
  | infinity s => cases s <;> exact absurd hu (by decide)
  | zero s => rfl
  | finite s m e hm => rfl

theorem isFinite_of_add {x y : Float} (hsum : (x + y).isFinite = true) :
    x.isFinite = true ∧ y.isFinite = true := by
  have hparts : (UnpackedFloat.add Format.binary64 (parts x) (parts y)).isFinite = true :=
    isFinite_pack hsum
  rw [isFinite_eq, isFinite_eq]
  cases hx : parts x <;> cases hy : parts y <;> rw [hx, hy] at hparts
  case infinity.infinity s t => cases s <;> cases t <;> exact absurd hparts (by decide)
  all_goals first | exact ⟨rfl, rfl⟩ | exact absurd hparts Bool.false_ne_true

theorem isFinite_of_sub {x y : Float} (hdifference : (x - y).isFinite = true) :
    x.isFinite = true ∧ y.isFinite = true := by
  rw [sub_eq_add_neg] at hdifference
  obtain ⟨hx, hy⟩ := isFinite_of_add hdifference
  exact ⟨hx, by rwa [isFinite_neg] at hy⟩

theorem isFinite_of_mul {x y : Float} (hproduct : (x * y).isFinite = true) :
    x.isFinite = true ∧ y.isFinite = true := by
  have hparts : (UnpackedFloat.mul Format.binary64 (parts x) (parts y)).isFinite = true :=
    isFinite_pack hproduct
  rw [isFinite_eq, isFinite_eq]
  cases hx : parts x <;> cases hy : parts y <;> rw [hx, hy] at hparts
  all_goals first | exact ⟨rfl, rfl⟩ | exact absurd hparts Bool.false_ne_true

theorem isFinite_of_div {x y : Float} (hquotient : (x / y).isFinite = true) :
    x.isFinite = true := by
  have hparts : (UnpackedFloat.div Format.binary64 (parts x) (parts y)).isFinite = true :=
    isFinite_pack hquotient
  rw [isFinite_eq]
  cases hx : parts x <;> cases hy : parts y <;> rw [hx, hy] at hparts
  all_goals first | rfl | exact absurd hparts Bool.false_ne_true

theorem isFinite_of_sqrt {x : Float} (hroot : (Float.sqrt x).isFinite = true) :
    x.isFinite = true := by
  have hparts : (UnpackedFloat.sqrt Format.binary64 (parts x)).isFinite = true :=
    isFinite_pack hroot
  rw [isFinite_eq]
  cases hx : parts x with
  | notANumber =>
      rw [hx] at hparts
      exact absurd hparts Bool.false_ne_true
  | infinity s =>
      rw [hx] at hparts
      cases s <;> exact absurd hparts Bool.false_ne_true
  | zero s => rfl
  | finite s m e hm => rfl

/-! ## Errors of sums -/

/-- A sum of doubles is rounded relative to its size. Below all places it is exact. -/
theorem abs_nearest_add_sub_le {a b : ℝ} (ha : IsDouble a) (hb : IsDouble b) :
    |nearest (a + b) - (a + b)| ≤ |a + b| / 2 ^ 53 := by
  rcases (le_place (a + b)).lt_or_eq with hplace | hleast
  · have hlarge := le_ulp hplace
    have herror := abs_nearest_sub_le_half_ulp (le_refl |a + b|)
    linarith
  · obtain ⟨i, hi⟩ := exists_finest ha
    obtain ⟨j, hj⟩ := exists_finest hb
    have hbits := abs_lt_ulp (a + b)
    rw [ulp_eq, ← hleast, ← twoPow] at hbits
    have hsum : a + b = (i + j : ℤ) * finest := by
      rw [hi, hj]
      push_cast
      ring
    have hdouble : IsDouble (a + b) := by
      have hunit : 0 < finest := zpow_two_pos _
      change |a + b| < 2 ^ 53 * finest at hbits
      rw [hsum, abs_mul, abs_of_pos hunit, ← Int.cast_abs] at hbits
      rw [hsum]
      exact ⟨i + j, -1074, by exact_mod_cast lt_of_mul_lt_mul_right hbits hunit.le, le_rfl, rfl⟩
    rw [nearest_of_isDouble hdouble, sub_self, abs_zero]
    positivity

/-- A number that is not negative is not more than doubled. -/
theorem nearest_le_two_mul {r : ℝ} (hr : 0 ≤ r) : nearest r ≤ 2 * r := by
  have herror := abs_le.mp (abs_nearest_sub_le_abs_sub (r := r) isDouble_zero)
  rw [zero_sub, abs_neg, abs_of_nonneg hr] at herror
  linarith

theorem finest_le_of_pos {d : ℝ} (hd : IsDouble d) (hpos : 0 < d) : finest ≤ d := by
  have hunit : 0 < finest := zpow_two_pos _
  obtain ⟨k, rfl⟩ := exists_finest hd
  have hk : (1 : ℝ) ≤ k := by exact_mod_cast pos_of_mul_pos_left hpos hunit.le
  exact le_mul_of_one_le_left hunit.le hk

/-- What is more than half of the least double does not vanish. -/
theorem nearest_pos_iff {r : ℝ} (hr : 0 ≤ r) : 0 < nearest r ↔ finest / 2 < r := by
  have hunit : 0 < finest := zpow_two_pos _
  have hleast : IsDouble finest := isDouble_zpow le_rfl
  constructor
  · intro hpos
    by_contra hsmall
    have hplace : |r| < 2 ^ 53 * finest := by
      rw [abs_of_nonneg hr]
      linarith
    have hhalf : halfEven (r / finest) ≤ halfEven (((1 : ℤ) : ℝ) / 2) := by
      refine halfEven_mono ?_
      rw [div_le_iff₀ hunit]
      push_cast
      linarith
    rw [halfEven_div_two] at hhalf
    have hnonpos : (halfEven (r / finest) : ℝ) ≤ 0 := by exact_mod_cast hhalf
    rw [nearest_eq_finest hplace] at hpos
    linarith [mul_nonpos_of_nonpos_of_nonneg hnonpos hunit.le]
  · intro hlarge
    rcases le_or_gt finest r with habove | hbelow
    · exact hunit.trans_le (le_nearest hleast habove)
    · have herror := abs_nearest_sub_le_abs_sub (r := r) hleast
      rw [abs_of_pos (sub_pos.mpr hbelow)] at herror
      linarith [(abs_le.mp herror).1]

/-- Of two doubles, one of which is at least three quarters of the other, the difference is a double. -/
theorem isDouble_sub_of_close {a b : ℝ} (ha : IsDouble a) (hb : IsDouble b)
    (hclose : |b - a| ≤ |a| / 4) : IsDouble (a - b) := by
  obtain ⟨e, he, hle, hfine⟩ : ∃ e, -1074 ≤ e ∧ place a ≤ e + 1 ∧
      ∀ {d}, IsDouble d → 3 / 4 * |a| ≤ |d| → ∃ k : ℤ, d = k * 2 ^ e := by
    rcases (le_place a).lt_or_eq with hplace | hleast
    · refine ⟨place a - 1, by omega, by omega, fun hd hlarge => ?_⟩
      refine exists_intCast_mul_of_isDouble hd ?_
      have hbits := le_ulp hplace
      rw [show 52 + (place a - 1) = 51 + place a by ring, zpow_two_add, ← ulp_eq]
      norm_num at hbits ⊢
      linarith [ulp_pos a]
    · exact ⟨-1074, le_rfl, by omega, fun hd _ => exists_finest hd⟩
  have hunit := zpow_two_pos e
  obtain ⟨i, hi⟩ := hfine ha (by linarith [abs_nonneg a])
  obtain ⟨j, hj⟩ := hfine hb (by
    have htriangle := abs_sub_abs_le_abs_sub a b
    rw [abs_sub_comm] at htriangle
    linarith)
  have hsmall : |a| < 2 ^ 54 * 2 ^ e := by
    refine (abs_lt_zpow_place a).trans_le ((zpow_two_le (by omega : 53 + place a ≤ 54 + e)).trans ?_)
    rw [zpow_two_add]
    norm_num
  have hdiff : a - b = (i - j : ℤ) * 2 ^ e := by
    rw [hi, hj]
    push_cast
    ring
  have hbound : |a - b| < 2 ^ 53 * 2 ^ e := by
    rw [abs_sub_comm]
    linarith
  rw [hdiff, abs_mul, abs_of_pos hunit, ← Int.cast_abs] at hbound
  rw [hdiff]
  exact ⟨i - j, e, by exact_mod_cast lt_of_mul_lt_mul_right hbound hunit.le, he, rfl⟩

end ChartCompiler.Double
