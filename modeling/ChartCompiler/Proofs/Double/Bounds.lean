import ChartCompiler.Proofs.Double.Selection

/-!
# How large and how exact

Two measures that arithmetic carries along. `Bounded x e` says that the double is finite
and at most `2 ^ e` in magnitude, so that sums and products of bounded doubles cannot
overflow. `Near x r d` says how far a double is from the real number that it stands in for.
-/

namespace ChartCompiler.Double

/-! ## Magnitudes -/

/-- The double is finite, and its magnitude is at most a power of two. -/
structure Bounded (x : Float) (e : ℕ) : Prop where
  isFinite : x.isFinite = true
  within : |real x| ≤ 2 ^ e

theorem isDouble_pow (e : ℕ) : IsDouble (2 ^ e) := by
  exact_mod_cast isDouble_zpow (e := e) (by omega)

theorem pow_lt_limit {e : ℕ} (he : e < 1024) : (2 : ℝ) ^ e < limit := by
  exact_mod_cast zpow_lt_limit (e := e) (by omega)

namespace Bounded

variable {x y : Float} {a b : ℕ}

theorem of_rounds {r : ℝ} (hx : Rounds x r) (hr : |r| ≤ 2 ^ a) (ha : a < 1024) :
    Bounded x a := by
  obtain ⟨hfinite, hreal⟩ := hx.bounded (isDouble_pow a) (pow_lt_limit ha) hr
  exact ⟨hfinite, hreal⟩

theorem mono (hx : Bounded x a) (hab : a ≤ b) : Bounded x b :=
  ⟨hx.isFinite, hx.within.trans (pow_le_pow_right₀ one_le_two hab)⟩

theorem zero (a : ℕ) : Bounded 0 a :=
  ⟨rfl, by rw [real_zero, abs_zero]; positivity⟩

theorem ofNat {n : ℕ} (hn : n ≤ 2 ^ a) (ha : a < 1024) : Bounded (Float.ofNat n) a :=
  of_rounds (rounds_ofNat n) (by rw [Nat.abs_cast]; exact_mod_cast hn) ha

theorem neg (hx : Bounded x a) : Bounded (-x) a :=
  ⟨by rw [isFinite_neg, hx.isFinite], by rw [real_neg, abs_neg]; exact hx.within⟩

theorem add (hx : Bounded x a) (hy : Bounded y a) (ha : a + 1 < 1024) :
    Bounded (x + y) (a + 1) := by
  refine of_rounds (rounds_add hx.isFinite hy.isFinite) ?_ ha
  calc
    |real x + real y| ≤ |real x| + |real y| := abs_add_le _ _
    _ ≤ 2 ^ a + 2 ^ a := add_le_add hx.within hy.within
    _ = 2 ^ (a + 1) := by ring

theorem sub (hx : Bounded x a) (hy : Bounded y a) (ha : a + 1 < 1024) :
    Bounded (x - y) (a + 1) := by
  rw [sub_eq_add_neg]
  exact hx.add hy.neg ha

/-- Differences do not round past whole numbers. -/
theorem sub_le (hx : Bounded x a) (hy : Bounded y a) (ha : a + 1 < 1024) {n : ℕ}
    (hn : n ≤ 2 ^ 53) (hle : real x - real y ≤ n) : real (x - y) ≤ n := by
  have hlow : -(2 : ℝ) ^ (a + 1) ≤ real x - real y := by
    have hx' := (abs_le.mp hx.within).1
    have hy' := (abs_le.mp hy.within).2
    rw [pow_succ]
    linarith
  exact ((rounds_sub hx.isFinite hy.isFinite).between (isDouble_pow (a + 1)).neg
    (isDouble_natCast hn) (neg_lt_neg (pow_lt_limit ha))
    ((le_abs_self _).trans_lt (natCast_lt_limit (by omega))) hlow hle).2.2

theorem mul (hx : Bounded x a) (hy : Bounded y b) (hab : a + b < 1024) :
    Bounded (x * y) (a + b) := by
  refine of_rounds (rounds_mul hx.isFinite hy.isFinite) ?_ hab
  rw [abs_mul, pow_add]
  exact mul_le_mul hx.within hy.within (abs_nonneg _) (by positivity)

/-- Parts of a number are no larger than the number. -/
theorem mul_part (hx : Bounded x a) (hy : y.isFinite = true) (hlow : 0 ≤ real y)
    (hhigh : real y ≤ 1) (ha : a < 1024) : Bounded (x * y) a := by
  refine of_rounds (rounds_mul hx.isFinite hy) ?_ ha
  rw [abs_mul, abs_of_nonneg hlow]
  exact (mul_le_of_le_one_right (abs_nonneg _) hhigh).trans hx.within

/-- Quotients by numbers that are not too small. -/
theorem div (hx : Bounded x a) (hy : y.isFinite = true) (hlow : 1 ≤ 2 ^ b * |real y|)
    (hab : a + b < 1024) : Bounded (x / y) (a + b) := by
  have hpos : 0 < |real y| := by
    by_contra hnot
    rw [le_antisymm (not_lt.mp hnot) (abs_nonneg _), mul_zero] at hlow
    exact absurd hlow (by norm_num)
  refine of_rounds (rounds_div hx.isFinite hy (abs_pos.mp hpos)) ?_ hab
  rw [abs_div, div_le_iff₀ hpos]
  calc
    |real x| ≤ 2 ^ a * 1 := by
      rw [mul_one]
      exact hx.within
    _ ≤ 2 ^ a * (2 ^ b * |real y|) := by gcongr
    _ = 2 ^ (a + b) * |real y| := by rw [pow_add, mul_assoc]

/-- Square roots halve the exponent. -/
theorem sqrt (hx : Bounded x (2 * a)) (hpos : 0 ≤ real x) (ha : a < 1024) :
    Bounded (Float.sqrt x) a := by
  refine of_rounds (rounds_sqrt hx.isFinite hpos) ?_ ha
  rw [abs_of_nonneg (Real.sqrt_nonneg _)]
  refine Real.sqrt_le_iff.mpr ⟨by positivity, (le_abs_self _).trans ?_⟩
  rw [← pow_mul, mul_comm]
  exact hx.within

end Bounded

/-! ## Distances -/

/-- The double is finite and lies within a distance of a real number. -/
structure Near (x : Float) (r d : ℝ) : Prop where
  isFinite : x.isFinite = true
  within : |real x - r| ≤ d

/-- The error of rounding, relative to a bound that is not too small. -/
theorem abs_nearest_sub_le_of_abs_le {r m : ℝ} (hr : |r| ≤ m) (hm : 2 ^ (-1022 : ℤ) ≤ m) :
    |nearest r - r| ≤ m / 2 ^ 53 := by
  have herror := abs_nearest_sub_le (le_place r) (abs_lt_zpow_place r)
  refine herror.trans ?_
  rw [le_div_iff₀ (by positivity)]
  have hscale : (2 : ℝ) ^ (place r - 1) * 2 ^ 53 = 2 ^ (52 + place r) := by
    rw [← zpow_natCast, ← zpow_two_add]
    congr 1
    push_cast
    ring
  rw [hscale]
  rcases (le_place r).lt_or_eq with hlarge | hleast
  · exact (zpow_place_le_abs hlarge).trans hr
  · rw [← hleast]
    exact hm

/-- A finite result of operands that are off as well. -/
theorem Rounds.abs_real_sub_le {x : Float} {r s d m : ℝ} (hx : Rounds x s)
    (hfinite : x.isFinite = true) (hs : |s - r| ≤ d) (hm : |s| ≤ m) (hlow : 2 ^ (-1022 : ℤ) ≤ m) :
    |real x - r| ≤ d + m / 2 ^ 53 := by
  have herror := abs_nearest_sub_le_of_abs_le hm hlow
  rw [hx.real_of_isFinite hfinite]
  linarith [abs_sub_le (nearest s) s r]

/-- How far results below 128 are rounded at most. -/
noncomputable def slack : ℝ :=
  twoPow (-47)

theorem slack_pos : 0 < slack :=
  zpow_two_pos _

theorem slack_le : slack ≤ 1 / 10 ^ 12 := by
  norm_num [slack, twoPow]

namespace Near

variable {x y : Float} {r s d e : ℝ}

theorem of_rounds (hx : Rounds x r) (hr : |r| < 128) : Near x r slack := by
  have hsmall : |r| < 2 ^ (53 + -46 : ℤ) := by
    norm_num
    exact hr
  have hle : |r| ≤ 2 ^ 7 := by
    norm_num
    exact hr.le
  have hfits : |nearest r| < limit :=
    (abs_nearest_le (isDouble_pow 7) hle).trans_lt (pow_lt_limit (by norm_num))
  refine ⟨hx.isFinite hfits, ?_⟩
  rw [hx.real_eq hfits]
  exact abs_nearest_sub_le (e := -46) (by norm_num) hsmall

/-- The operands of an operation may be off as well. -/
theorem of_rounds_near (hx : Rounds x s) (hs : |s - r| ≤ d) (hsmall : |r| + d < 128) :
    Near x r (d + slack) := by
  have hbound : |s| < 128 := by
    have htriangle := abs_sub_abs_le_abs_sub s r
    linarith
  obtain ⟨hfinite, hwithin⟩ := of_rounds hx hbound
  refine ⟨hfinite, ?_⟩
  calc
    |real x - r| ≤ |real x - s| + |s - r| := abs_sub_le _ _ _
    _ ≤ d + slack := by linarith

/-- Results of any size are rounded relative to a bound. -/
theorem of_rounds_le {m : ℝ} (hx : Rounds x s) (hs : |s - r| ≤ d) (hm : |r| + d ≤ m)
    (hlow : 2 ^ (-1022 : ℤ) ≤ m) (hhigh : m ≤ 2 ^ (1022 : ℤ)) : Near x r (d + m / 2 ^ 53) := by
  have hbound : |s| ≤ m := by
    have htriangle := abs_sub_abs_le_abs_sub s r
    linarith
  have herror := abs_nearest_sub_le_of_abs_le hbound hlow
  have hfits : |nearest s| < limit :=
    (abs_nearest_le (isDouble_zpow (by norm_num)) (hbound.trans hhigh)).trans_lt
      (zpow_lt_limit (by norm_num))
  refine ⟨hx.isFinite hfits, ?_⟩
  rw [hx.real_eq hfits]
  calc
    |nearest s - r| ≤ |nearest s - s| + |s - r| := abs_sub_le _ _ _
    _ ≤ d + m / 2 ^ 53 := by linarith

theorem ofNat {n : ℕ} (hn : n ≤ 2 ^ 53) : Near (Float.ofNat n) n 0 := by
  obtain ⟨hfinite, hreal⟩ := exact_ofNat hn
  exact ⟨hfinite, by rw [hreal, sub_self, abs_zero]⟩

/-- A double at no distance is that number. -/
theorem real_eq (hx : Near x r 0) : real x = r :=
  sub_eq_zero.mp (abs_nonpos_iff.mp hx.within)

theorem bounded {n a : ℕ} (hx : Near x n 0) (hn : n ≤ 2 ^ a) : Bounded x a :=
  ⟨hx.isFinite, by rw [hx.real_eq, Nat.abs_cast]; exact_mod_cast hn⟩

theorem mono (hx : Near x r d) (hde : d ≤ e) : Near x r e :=
  ⟨hx.isFinite, hx.within.trans hde⟩

theorem add (hx : Near x r d) (hy : Near y s e) (hsmall : |r + s| + (d + e) < 128) :
    Near (x + y) (r + s) (d + e + slack) := by
  refine of_rounds_near (rounds_add hx.isFinite hy.isFinite) ?_ hsmall
  calc
    |real x + real y - (r + s)| = |(real x - r) + (real y - s)| := by ring_nf
    _ ≤ |real x - r| + |real y - s| := abs_add_le _ _
    _ ≤ d + e := add_le_add hx.within hy.within

theorem sub (hx : Near x r d) (hy : Near y s e) (hsmall : |r - s| + (d + e) < 128) :
    Near (x - y) (r - s) (d + e + slack) := by
  refine of_rounds_near (rounds_sub hx.isFinite hy.isFinite) ?_ hsmall
  calc
    |real x - real y - (r - s)| = |(real x - r) - (real y - s)| := by ring_nf
    _ ≤ |real x - r| + |real y - s| := abs_sub _ _
    _ ≤ d + e := add_le_add hx.within hy.within

/-- Multiples by whole numbers. -/
theorem ofNat_mul {n : ℕ} (hn : n ≤ 2 ^ 53) (hy : Near y s e)
    (hsmall : |n * s| + n * e < 128) :
    Near (Float.ofNat n * y) (n * s) (n * e + slack) := by
  obtain ⟨hfinite, hreal⟩ := exact_ofNat hn
  refine of_rounds_near (rounds_mul hfinite hy.isFinite) ?_ hsmall
  rw [hreal, ← mul_sub, abs_mul, Nat.abs_cast]
  exact mul_le_mul_of_nonneg_left hy.within n.cast_nonneg

end Near

end ChartCompiler.Double
