import ChartCompiler.Decimal.Numeral
import ChartCompiler.Proofs.Double.Scaled

/-!
# Decimals as doubles

A power of ten is rounded once when a decimal is made a double, also where the decimal is too large
or too small for one. A numeral is therefore read as the double nearest to the number that it
writes: `Numeral.rounds_value`.
-/

namespace ChartCompiler

namespace Double

open Float.Model Float.Model.UnpackedFloat

/-! ## Powers of ten -/

/-- The table of powers of ten is exact. -/
theorem exact_powerTable {e : ℕ} (he : e < Float.exactlyRepresentablePowersOfTen.size) :
    (Float.exactlyRepresentablePowersOfTen[e]).isFinite = true ∧
      IsUnsigned (Float.exactlyRepresentablePowersOfTen[e]) ∧
      real (Float.exactlyRepresentablePowersOfTen[e]) = 10 ^ e := by
  have htable : ∀ e (h : e < 23), (Float.exactlyRepresentablePowersOfTen[e]).isFinite = true ∧
      (Float.exactlyRepresentablePowersOfTen[e]).toBits.toNat < 2 ^ 63 ∧
      ∃ d ∈ Dyadic.ofFloat? (Float.exactlyRepresentablePowersOfTen[e]), d.negative = false ∧
        d.significand * 2 ^ d.exponent.toNat = 10 ^ e * 2 ^ (-d.exponent).toNat := by
    decide +kernel
  obtain ⟨hfinite, hsign, d, hd, hpositive, hexact⟩ := htable e he
  obtain ⟨d', hd', hnumber⟩ := Dyadic.ofFloat?_of_isFinite hfinite
  obtain rfl : d = d' := Option.some.inj (hd.symm.trans hd')
  refine ⟨hfinite, hsign, ?_⟩
  have hscale : (2 : ℝ) ^ d.exponent.toNat = 2 ^ d.exponent * 2 ^ (-d.exponent).toNat := by
    rw [← zpow_natCast, ← zpow_natCast, ← zpow_two_add]
    congr 1
    omega
  have hcast : (d.significand : ℝ) * 2 ^ d.exponent.toNat = 10 ^ e * 2 ^ (-d.exponent).toNat := by
    exact_mod_cast hexact
  rw [hscale, ← mul_assoc] at hcast
  rw [← hnumber, Dyadic.number, hpositive, if_neg Bool.false_ne_true]
  exact mul_right_cancel₀ (pow_ne_zero _ two_ne_zero) hcast

/-- Words of at most 53 bits are converted exactly. -/
theorem exact_toFloat {m : ℕ} (hm : m < 2 ^ 53) :
    m.toUInt64.toFloat.isFinite = true ∧ real m.toUInt64.toFloat = m := by
  have hrounds := rounds_toFloat m.toUInt64
  have htoNat : m.toUInt64.toNat = m := Nat.mod_eq_of_lt (by omega)
  rw [htoNat] at hrounds
  exact hrounds.exact (isDouble_natCast hm.le) (natCast_lt_limit (by omega))

/-- The model multiplies or divides by a power of ten, and rounds once. -/
theorem rounds_pack_ofScientific {m : ℕ} {e : ℤ} (hlow : -(2048 + (m.log2 : ℤ)) ≤ e)
    (hhigh : e ≤ 2048) :
    Rounds (.ofModel (Float.Model.pack (UnpackedFloat.ofScientific Format.binary64 m e)))
      (m * 10 ^ e) := by
  have hbits : (2 : ℤ) ^ Format.binary64.exponentBits = 2048 := by decide
  unfold UnpackedFloat.ofScientific
  split_ifs with hzero hlarge hsmall hpos
  · subst hzero
    refine rounds_of_holds ⟨rfl, trivial, ?_⟩
    rw [Nat.cast_zero, zero_mul, nearest_zero]
    rfl
  · omega
  · omega
  · have hholds := holds_mul_finite .positive .positive (m := m <<< 53) (n := 10 ^ e.toNat)
      (d := -53) (e := 0) (by rw [Nat.shiftLeft_eq]; positivity)
      (Nat.pow_pos (by decide)) (.inl ?_)
    · have hvalue : signed .positive (((m <<< 53 : ℕ) : ℝ) * 2 ^ (-53 : ℤ)) *
          signed .positive ((10 ^ e.toNat : ℕ) * 2 ^ (0 : ℤ)) = m * 10 ^ e := by
        have hpower : (10 : ℝ) ^ e = 10 ^ e.toNat := by
          rw [← zpow_natCast, Int.toNat_of_nonneg hpos]
        rw [signed, signed, Nat.shiftLeft_eq, zpow_zero, hpower]
        push_cast
        norm_num
        ring
      rw [hvalue] at hholds
      exact rounds_of_holds hholds
    · have hmpos : 0 < m := Nat.pos_of_ne_zero hzero
      have hpower : 0 < 10 ^ e.toNat := Nat.pow_pos (by decide)
      rw [Nat.shiftLeft_eq]
      nlinarith
  · have hholds := holds_div_finite .positive .positive (m := m) (n := 10 ^ (-e).toNat)
      (Nat.pos_of_ne_zero hzero) (Nat.pow_pos (by decide)) 0 0
    have hvalue : signed .positive ((m : ℝ) * 2 ^ (0 : ℤ)) /
        signed .positive ((10 ^ (-e).toNat : ℕ) * 2 ^ (0 : ℤ)) = m * 10 ^ e := by
      have hpower : (10 : ℝ) ^ e = (10 ^ (-e).toNat)⁻¹ := by
        rw [← zpow_natCast, ← zpow_neg, Int.toNat_of_nonneg (by omega), neg_neg]
      rw [signed, signed, zpow_zero, mul_one, mul_one, hpower, div_eq_mul_inv]
      push_cast
      rfl
    rw [hvalue] at hholds
    exact rounds_of_holds hholds

/-- A number with a decimal exponent is rounded once. -/
theorem rounds_ofScientific {m e : ℕ} (he : e ≤ 2048) :
    Rounds (Float.ofScientific m false e) (m * 10 ^ e) := by
  unfold Float.ofScientific
  by_cases hfast : m < 2 ^ 53 ∧ e ≤ 22
  · obtain ⟨hm, hmreal⟩ := exact_toFloat hfast.1
    obtain ⟨hpower, -, hpowerReal⟩ := exact_powerTable (e := e) (Nat.lt_succ_of_le hfast.2)
    have hproduct := rounds_mul hm hpower
    rw [hmreal, hpowerReal] at hproduct
    rw [dif_pos hfast]
    exact hproduct
  · have hmodel := rounds_pack_ofScientific (m := m) (e := e) (by omega) (by omega)
    rw [zpow_natCast] at hmodel
    rw [dif_neg hfast]
    exact hmodel

theorem rounds_ofScientific_neg {m e : ℕ} (he : e ≤ 2048 + m.log2) :
    Rounds (Float.ofScientific m true e) (m / 10 ^ e) := by
  unfold Float.ofScientific
  by_cases hfast : m < 2 ^ 53 ∧ e ≤ 22
  · obtain ⟨hm, hmreal⟩ := exact_toFloat hfast.1
    obtain ⟨hpower, -, hpowerReal⟩ := exact_powerTable (e := e) (Nat.lt_succ_of_le hfast.2)
    have hquotient := rounds_div hm hpower (by rw [hpowerReal]; positivity)
    rw [hmreal, hpowerReal] at hquotient
    rw [dif_pos hfast]
    exact hquotient
  · have hmodel := rounds_pack_ofScientific (m := m) (e := -e) (by omega) (by omega)
    rw [zpow_neg, zpow_natCast, ← div_eq_mul_inv] at hmodel
    rw [dif_neg hfast]
    change Rounds (Float.ofModel (Float.Model.pack (UnpackedFloat.ofScientific Format.binary64 m
      (Int.negOfNat e)))) _
    rwa [Int.negOfNat_eq]

theorem isPlain_ofScientific (m : ℕ) (e : ℤ) :
    IsPlain (UnpackedFloat.ofScientific Format.binary64 m e) := by
  unfold UnpackedFloat.ofScientific
  split_ifs
  · exact .zero
  · exact .infinity
  · exact .zero
  · exact isPlain_mul (.finite _ _ _) (.finite _ _ _)
  · exact isPlain_div (.finite _ _ _) (.finite _ _ _)

theorem isUnsigned_ofScientific (m : ℕ) (s : Bool) (e : ℕ) :
    IsUnsigned (Float.ofScientific m s e) := by
  unfold Float.ofScientific
  by_cases hfast : m < 2 ^ 53 ∧ e ≤ 22
  · obtain ⟨-, hpower, -⟩ := exact_powerTable (e := e) (Nat.lt_succ_of_le hfast.2)
    rw [dif_pos hfast]
    cases s with
    | true => exact (isUnsigned_toFloat _).div hpower
    | false => exact (isUnsigned_toFloat _).mul hpower
  · rw [dif_neg hfast]
    exact isUnsigned_pack (isPlain_ofScientific m _)


/-! ## Results that are too large or too small -/

theorem rounded_neg (r : ℝ) : rounded (-r) = -rounded r := by
  have hlimit := limit_pos
  unfold rounded
  simp only [nearest_neg, le_neg, neg_le_neg_iff]
  split_ifs with hlow hhigh hhigh
  · linarith
  · rfl
  · rfl
  · rfl

theorem Rounds.neg {x : Float} {r : ℝ} (hx : Rounds x r) : Rounds (-x) (-r) where
  isNaN := by
    rw [isNaN_eq, parts_neg, ← hx.isNaN, isNaN_eq]
    cases parts x <;> rfl
  value := by rw [value_neg, hx.value, rounded_neg]
  isFinite hr := by
    rw [nearest_neg, abs_neg] at hr
    rw [isFinite_neg, hx.isFinite hr]

theorem rounds_infinity {r : ℝ} (hr : limit ≤ r) : Rounds infinity r := by
  have hnearest : limit ≤ nearest r := le_nearest (isDouble_zpow (by norm_num)) hr
  refine ⟨rfl, ?_, fun hsmall => absurd hsmall ?_⟩
  · rw [rounded, if_pos hnearest]
    rfl
  · exact (hnearest.trans (le_abs_self _)).not_gt

/-- What is less than half of the least double is rounded to zero. -/
theorem nearest_eq_zero {r : ℝ} (hr : |r| < 2 ^ (-1075 : ℤ)) : nearest r = 0 := by
  have hplace : place r = -1074 :=
    le_antisymm (place_le le_rfl (hr.trans_le (zpow_two_le (by norm_num)))) (le_place r)
  have hsmall : |r / 2 ^ (-1074 : ℤ)| < 1 / 2 := by
    rw [abs_div, abs_of_pos (zpow_two_pos _), div_lt_iff₀ (zpow_two_pos _)]
    refine hr.trans_eq ?_
    rw [show (-1075 : ℤ) = -1 + -1074 by norm_num, zpow_two_add]
    norm_num
  have hround := abs_halfEven_sub_le (r / 2 ^ (-1074 : ℤ))
  have hzero : halfEven (r / 2 ^ (-1074 : ℤ)) = 0 := by
    rw [← Int.abs_lt_one_iff]
    rw [abs_le] at hround
    rw [abs_lt] at hsmall
    have habs : |(halfEven (r / 2 ^ (-1074 : ℤ)) : ℝ)| < 1 :=
      abs_lt.mpr ⟨by linarith, by linarith⟩
    exact_mod_cast habs
  rw [nearest, hplace, hzero, Int.cast_zero, zero_mul]

theorem rounds_zero {r : ℝ} (hr : nearest r = 0) : Rounds 0 r := by
  refine ⟨rfl, ?_, fun _ => rfl⟩
  rw [rounded_of_lt (by rw [hr, abs_zero]; exact limit_pos), hr]
  rfl

end Double

open Double

/-! ## Decimals and numerals -/

theorem Decimal.isUnsigned_toFloat (d : Decimal) : IsUnsigned d.toFloat := by
  unfold Decimal.toFloat
  split_ifs
  · decide
  · decide
  · decide
  · exact isUnsigned_ofScientific _ _ _
  · exact isUnsigned_ofScientific _ _ _

/-- A decimal of this size is less than half of the least double. -/
theorem Decimal.lt_of_exponent_lt {d : Decimal} (hd : d.exponent + d.digits.log2 / 3 < -400) :
    (d.digits * 10 ^ d.exponent : ℝ) < 2 ^ (-1075 : ℤ) := by
  have hdigits : d.digits < 10 ^ (d.digits.log2 / 3 + 1) :=
    calc
      d.digits < 2 ^ (d.digits.log2 + 1) := Nat.lt_log2_self
      _ ≤ 2 ^ (3 * (d.digits.log2 / 3 + 1)) := Nat.pow_le_pow_right two_pos (by omega)
      _ = 8 ^ (d.digits.log2 / 3 + 1) := pow_mul 2 3 _
      _ ≤ 10 ^ (d.digits.log2 / 3 + 1) := Nat.pow_le_pow_left (by norm_num) _
  have hleast : (10 : ℝ) ^ (-400 : ℤ) < 2 ^ (-1075 : ℤ) := by
    have hpowers : 2 ^ 1075 < 10 ^ 400 := by decide +kernel
    rw [zpow_neg, zpow_neg]
    exact inv_strictAnti₀ (by positivity) (by exact_mod_cast hpowers)
  calc
    (d.digits * 10 ^ d.exponent : ℝ)
        ≤ 10 ^ (d.digits.log2 / 3 + 1) * 10 ^ d.exponent :=
      mul_le_mul_of_nonneg_right (by exact_mod_cast hdigits.le) (by positivity)
    _ = 10 ^ ((d.digits.log2 / 3 + 1 : ℕ) + d.exponent) := by
      rw [zpow_add₀ (by norm_num), zpow_natCast]
    _ ≤ 10 ^ (-400 : ℤ) := zpow_le_zpow_right₀ (by norm_num) (by omega)
    _ < 2 ^ (-1075 : ℤ) := hleast

/-- A decimal is read as the nearest double. -/
theorem Decimal.rounds_toFloat (d : Decimal) : Rounds d.toFloat (d.digits * 10 ^ d.exponent) := by
  unfold Decimal.toFloat
  split_ifs with hzero hlarge hsmall hpositive
  · rw [hzero, Nat.cast_zero, zero_mul]
    exact rounds_zero nearest_zero
  · have hdigits : (1 : ℝ) ≤ d.digits := by exact_mod_cast Nat.pos_of_ne_zero hzero
    have hpowers : 2 ^ 1024 ≤ 10 ^ 400 := by decide +kernel
    refine rounds_infinity ?_
    calc
      limit = ((2 ^ 1024 : ℕ) : ℝ) := by
        rw [Nat.cast_pow, ← zpow_natCast]
        rfl
      _ ≤ 10 ^ (400 : ℤ) := by exact_mod_cast hpowers
      _ ≤ 10 ^ d.exponent := zpow_le_zpow_right₀ (by norm_num) hlarge.le
      _ ≤ d.digits * 10 ^ d.exponent := le_mul_of_one_le_left (by positivity) hdigits
  · refine rounds_zero (nearest_eq_zero ?_)
    rw [abs_of_nonneg (by positivity)]
    exact Decimal.lt_of_exponent_lt hsmall
  · have hrounds := rounds_ofScientific (m := d.digits) (e := d.exponent.toNat) (by omega)
    rwa [← zpow_natCast, Int.toNat_of_nonneg hpositive] at hrounds
  · have hrounds := rounds_ofScientific_neg (m := d.digits) (e := (-d.exponent).toNat) (by omega)
    rwa [div_eq_mul_inv, ← zpow_natCast, ← zpow_neg, Int.toNat_of_nonneg (by omega),
      neg_neg] at hrounds

def Numeral.number (n : Numeral) : ℚ :=
  (if n.negative then -1 else 1) * (n.decimal.digits * 10 ^ n.decimal.exponent)

/-- A sign does not change how a magnitude is rounded. -/
theorem Numeral.rounds_signed {n : Numeral} {x : Float}
    (hx : Rounds x (n.decimal.digits * 10 ^ n.decimal.exponent)) :
    Rounds (if n.negative then -x else x) (n.number : ℚ) := by
  unfold number
  push_cast
  split_ifs
  · rw [Rat.cast_neg, Rat.cast_one, neg_one_mul]
    exact hx.neg
  · rw [Rat.cast_one, one_mul]
    exact hx

/-- A numeral is read as the nearest double. -/
theorem Numeral.rounds_value (n : Numeral) : Rounds n.value (n.number : ℚ) :=
  rounds_signed n.decimal.rounds_toFloat

end ChartCompiler
