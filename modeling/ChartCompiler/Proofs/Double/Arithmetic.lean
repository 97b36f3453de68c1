import ChartCompiler.Proofs.Double.Value
import Mathlib.Analysis.Real.Sqrt

/-!
# Arithmetic of doubles

Each operation on finite doubles gives the double nearest to the exact result of the
same operation on their values.
-/

namespace ChartCompiler.Double

open Float.Model Float.Model.UnpackedFloat

/-! ## Signs -/

theorem signed_neg (s : Sign) (r : ℝ) : signed (-s) r = -signed s r := by
  cases s with
  | negative => exact (neg_neg r).symm
  | positive => rfl

theorem signed_mul (s t : Sign) (a b : ℝ) :
    signed (s * t) (a * b) = signed s a * signed t b := by
  cases s <;> cases t
  · exact (neg_mul_neg a b).symm
  · exact (neg_mul a b).symm
  · exact (mul_neg a b).symm
  · rfl

theorem signed_div (s t : Sign) (a b : ℝ) :
    signed (s / t) (a / b) = signed s a / signed t b := by
  cases s <;> cases t
  · exact (neg_div_neg_eq a b).symm
  · exact (neg_div b a).symm
  · exact (div_neg a).symm
  · rfl

theorem signed_mul_right (s : Sign) (a c : ℝ) : signed s (a * c) = signed s a * c := by
  cases s with
  | negative => exact (neg_mul a c).symm
  | positive => rfl

theorem cast_apply (s : Sign) (n : ℤ) : ((s.apply n : ℤ) : ℝ) = signed s n := by
  cases s with
  | negative => exact Int.cast_neg n
  | positive => rfl

/-! ## Negation and magnitude -/

theorem canonical_neg {u : UnpackedFloat} (hu : Canonical u) : Canonical u.neg := by
  cases u <;> exact hu

theorem canonical_abs {u : UnpackedFloat} (hu : Canonical u) : Canonical u.abs := by
  cases u <;> exact hu

/-- Whether a number fits does not depend on its sign. -/
theorem packed_finite {s : Sign} (t : Sign) {m : ℕ} {e : ℤ} {hpos : 0 < m}
    (hu : packed (.finite s m e hpos) = .finite s m e hpos) :
    packed (.finite t m e hpos) = .finite t m e hpos := by
  by_cases hlarge : 971 < e
  · rw [packed, if_pos hlarge] at hu
    cases hu
  · exact if_neg hlarge

theorem packed_neg {u : UnpackedFloat} (hu : packed u = u) : packed u.neg = u.neg := by
  cases u with
  | notANumber => rfl
  | infinity s => rfl
  | zero s => rfl
  | finite s m e hpos => exact packed_finite (-s) hu

theorem packed_abs {u : UnpackedFloat} (hu : packed u = u) : packed u.abs = u.abs := by
  cases u with
  | notANumber => rfl
  | infinity s => rfl
  | zero s => rfl
  | finite s m e hpos => exact packed_finite .positive hu

theorem parts_neg (x : Float) : parts (-x) = (parts x).neg := by
  have hparts := parts_pack (canonical_neg (canonical_parts x))
  rw [packed_neg (packed_parts x)] at hparts
  exact hparts

theorem isFinite_neg (x : Float) : (-x).isFinite = x.isFinite := by
  rw [isFinite_eq, isFinite_eq, parts_neg]
  cases parts x <;> rfl

theorem value_neg (x : Float) : value (-x) = -value x := by
  rw [value, value, parts_neg]
  cases parts x with
  | notANumber => exact neg_zero.symm
  | infinity s => cases s <;> rfl
  | zero s => exact neg_zero.symm
  | finite s m e hpos =>
      simp only [UnpackedFloat.neg, unpackedValue, signed_neg]
      exact EReal.coe_neg _

theorem real_neg (x : Float) : real (-x) = -real x := by
  rw [real, value_neg, EReal.toReal_neg_eq]
  rfl

theorem parts_abs (x : Float) : parts (Float.abs x) = (parts x).abs := by
  have hparts := parts_pack (canonical_abs (canonical_parts x))
  rw [packed_abs (packed_parts x)] at hparts
  exact hparts

theorem isFinite_abs (x : Float) : (Float.abs x).isFinite = x.isFinite := by
  rw [isFinite_eq, isFinite_eq, parts_abs]
  cases parts x <;> rfl

theorem real_abs (x : Float) : real (Float.abs x) = |real x| := by
  rw [real, real, value, value, parts_abs]
  cases parts x with
  | notANumber => exact abs_zero.symm
  | infinity s => cases s <;> exact abs_zero.symm
  | zero s => exact abs_zero.symm
  | finite s m e hpos =>
      change (m : ℝ) * 2 ^ e = |signed s (m * 2 ^ e)|
      rw [abs_signed, abs_of_nonneg (magnitude_nonneg m e)]

theorem isFinite_of_abs_le {x y : Float} (hy : y.isFinite = true) (hxy : Float.abs x ≤ y) :
    x.isFinite = true := by
  obtain ⟨hnumber, -, hvalue⟩ := (le_iff _ _).mp hxy
  rw [isNaN_eq, parts_abs] at hnumber
  rw [value, parts_abs, value_of_isFinite hy] at hvalue
  rw [isFinite_eq]
  cases hparts : parts x with
  | notANumber =>
      rw [hparts] at hnumber
      cases hnumber
  | infinity s =>
      rw [hparts] at hvalue
      exact absurd hvalue (EReal.coe_lt_top _).not_ge
  | zero s => rfl
  | finite s m e hpos => rfl

/-! ## Sums and differences -/

/-- The parts of a finite double hold its real number. -/
theorem holds_parts {x : Float} (hx : x.isFinite = true) : Holds (parts x) (real x) :=
  ⟨hx, canonical_parts x, value_of_isFinite hx⟩

theorem nearest_real {x : Float} (hx : x.isFinite = true) : nearest (real x) = real x :=
  nearest_of_isDouble (isDouble_real hx)

theorem shiftLeft_mul_zpow (m : ℕ) {d e : ℤ} (hde : d ≤ e) :
    ((m <<< (e - d).toNat : ℕ) : ℝ) * 2 ^ d = m * 2 ^ e := by
  have hpow : (2 : ℝ) ^ e = 2 ^ (e - d).toNat * 2 ^ d := by
    rw [← zpow_natCast, ← zpow_two_add]
    congr 1
    omega
  rw [Nat.shiftLeft_eq, hpow]
  push_cast
  ring

/-- Two finite doubles are brought to the smaller exponent and added there. -/
theorem holds_add_finite (s t : Sign) {m n : ℕ} (hm : 0 < m) (hn : 0 < n) (d e : ℤ) :
    Holds (UnpackedFloat.add Format.binary64 (.finite s m d hm) (.finite t n e hn))
      (nearest (signed s (m * 2 ^ d) + signed t (n * 2 ^ e))) := by
  have hholds := holds_normalize
    (s.apply (m <<< (d - min d e).toNat : ℕ) + t.apply (n <<< (e - min d e).toNat : ℕ))
    (min d e) .positive
  have hsum : ((s.apply (m <<< (d - min d e).toNat : ℕ) +
      t.apply (n <<< (e - min d e).toNat : ℕ) : ℤ) : ℝ) * 2 ^ min d e =
      signed s (m * 2 ^ d) + signed t (n * 2 ^ e) := by
    rw [← shiftLeft_mul_zpow m (min_le_left d e), ← shiftLeft_mul_zpow n (min_le_right d e),
      signed_mul_right, signed_mul_right, ← add_mul, Int.cast_add, cast_apply, cast_apply]
    rfl
  rw [hsum] at hholds
  exact hholds

theorem rounds_add {x y : Float} (hx : x.isFinite = true) (hy : y.isFinite = true) :
    Rounds (x + y) (real x + real y) := by
  have hxholds := holds_parts hx
  have hyholds := holds_parts hy
  suffices hholds : Holds (UnpackedFloat.add Format.binary64 (parts x) (parts y))
      (nearest (real x + real y)) from rounds_of_holds hholds
  rcases parts_cases hx with ⟨s, hxparts, hxreal⟩ | ⟨s, m, d, hm, hxparts, hxreal, -⟩
  · rw [hxreal, zero_add, nearest_real hy]
    rcases parts_cases hy with ⟨t, hyparts, hyreal⟩ | ⟨t, n, e, hn, hyparts, -⟩
    · rw [hxparts, hyparts, hyreal]
      cases s <;> cases t <;> exact ⟨rfl, trivial, rfl⟩
    · rw [hyparts] at hyholds
      rw [hxparts, hyparts]
      exact hyholds
  · rcases parts_cases hy with ⟨t, hyparts, hyreal⟩ | ⟨t, n, e, hn, hyparts, hyreal, -⟩
    · rw [hyreal, add_zero, nearest_real hx]
      rw [hxparts] at hxholds
      rw [hxparts, hyparts]
      exact hxholds
    · rw [hxparts, hyparts, hxreal, hyreal]
      exact holds_add_finite s t hm hn d e

theorem unpacked_sub_eq (u v : UnpackedFloat) :
    UnpackedFloat.sub Format.binary64 u v = UnpackedFloat.add Format.binary64 u v.neg := by
  cases u with
  | notANumber => rfl
  | infinity s => cases v <;> rfl
  | zero s => cases v <;> rfl
  | finite s m d hm =>
      cases v with
      | notANumber => rfl
      | infinity t => rfl
      | zero t => rfl
      | finite t n e hn =>
          cases t with
          | negative =>
              exact congrArg (UnpackedFloat.normalize Format.binary64 · (min d e) .positive)
                (Int.sub_neg (a := s.apply _) (b := _))
          | positive => rfl

/-- A difference is the sum with the negated number. -/
theorem sub_eq_add_neg (x y : Float) : x - y = x + -y := by
  have hparts := parts_neg y
  change Float.ofModel (Float.Model.pack
    (UnpackedFloat.sub Format.binary64 (parts x) (parts y))) =
    Float.ofModel (Float.Model.pack
      (UnpackedFloat.add Format.binary64 (parts x) (parts (-y))))
  rw [hparts, unpacked_sub_eq]

theorem rounds_sub {x y : Float} (hx : x.isFinite = true) (hy : y.isFinite = true) :
    Rounds (x - y) (real x - real y) := by
  have hrounds := rounds_add hx (y := -y) (by rw [isFinite_neg, hy])
  rw [real_neg, ← sub_eq_add_neg] at hrounds
  exact hrounds

/-! ## Products -/

/-- A product needs no shifting to the left if it has 53 bits. -/
theorem holds_mul_finite (s t : Sign) {m n : ℕ} (hm : 0 < m) (hn : 0 < n) {d e : ℤ}
    (hbits : 2 ^ 52 ≤ m * n ∨ d + e ≤ -1074) :
    Holds (UnpackedFloat.mul Format.binary64 (.finite s m d hm) (.finite t n e hn))
      (nearest (signed s (m * 2 ^ d) * signed t (n * 2 ^ e))) := by
  have hproduct : ((m * n : ℕ) : ℝ) * 2 ^ (d + e) = m * 2 ^ d * (n * 2 ^ e) := by
    rw [zpow_two_add]
    push_cast
    ring
  have hplace : d + e ≤ place (((m * n : ℕ) : ℝ) * 2 ^ (d + e)) := by
    rcases hbits with hlarge | hsmall
    · apply le_place_of_zpow_le
      rw [abs_of_nonneg (magnitude_nonneg _ _), zpow_two_add]
      exact mul_le_mul_of_nonneg_right (by exact_mod_cast hlarge) (zpow_two_pos _).le
    · exact hsmall.trans (le_place _)
  have hholds := holds_roundWithAccuracy (s * t) (shows_exact (m * n))
    (by exact_mod_cast Nat.mul_pos hm hn) hplace
  rw [hproduct, signed_mul] at hholds
  exact hholds

theorem rounds_mul {x y : Float} (hx : x.isFinite = true) (hy : y.isFinite = true) :
    Rounds (x * y) (real x * real y) := by
  suffices hholds : Holds (UnpackedFloat.mul Format.binary64 (parts x) (parts y))
      (nearest (real x * real y)) from rounds_of_holds hholds
  rcases parts_cases hx with ⟨s, hxparts, hxreal⟩ | ⟨s, m, d, hm, hxparts, hxreal, -, hd, hmd, -⟩
  · rw [hxreal, zero_mul, nearest_zero, hxparts]
    rcases parts_cases hy with ⟨t, hyparts, -⟩ | ⟨t, n, e, hn, hyparts, -⟩
    · rw [hyparts]
      exact ⟨rfl, trivial, rfl⟩
    · rw [hyparts]
      exact ⟨rfl, trivial, rfl⟩
  · rcases parts_cases hy with ⟨t, hyparts, hyreal⟩ | ⟨t, n, e, hn, hyparts, hyreal, -, he, hne, -⟩
    · rw [hyreal, mul_zero, nearest_zero, hxparts, hyparts]
      exact ⟨rfl, trivial, rfl⟩
    · rw [hxparts, hyparts, hxreal, hyreal]
      apply holds_mul_finite
      rcases hmd with hlarge | hsmall
      · exact .inl (hlarge.trans (Nat.le_mul_of_pos_right m hn))
      · rcases hne with hlarge | hsmall'
        · exact .inl (hlarge.trans (Nat.le_mul_of_pos_left n hm))
        · right
          omega

/-! ## Quotients -/

/-- Division of natural numbers leaves a rest. -/
theorem natCast_div_eq (m : ℕ) {n : ℕ} (hn : 0 < n) :
    (m / n : ℝ) = (m / n : ℕ) + (m % n : ℕ) / (n : ℝ) := by
  have hpos : (0 : ℝ) < n := by exact_mod_cast hn
  rw [eq_comm, eq_div_iff hpos.ne', add_mul, div_mul_cancel₀ _ hpos.ne', mul_comm]
  exact_mod_cast Nat.div_add_mod m n

theorem shows_fraction (m : ℕ) {n : ℕ} (hn : 0 < n) :
    Shows (.ofMantissaAndAccuracy (m / n) (accuracyOfFraction (m % n) n)) (m / n : ℝ) := by
  have hpos : (0 : ℝ) < n := by exact_mod_cast hn
  have hbelow : ((m % n : ℕ) : ℝ) / n < 1 := by
    rw [div_lt_one hpos]
    exact_mod_cast Nat.mod_lt m hn
  rw [natCast_div_eq m hn]
  generalize m / n = q at *
  generalize m % n = rest at *
  unfold accuracyOfFraction
  split_ifs with hzero
  · rw [hzero, Nat.cast_zero, zero_div, add_zero]
    exact shows_exact q
  · have habove : 0 < (rest : ℝ) / n :=
      div_pos (by exact_mod_cast Nat.pos_of_ne_zero hzero) hpos
    rcases lt_trichotomy (2 * rest) n with hlt | heq | hgt
    · have hhalf : (rest : ℝ) / n < 1 / 2 := by
        rw [div_lt_div_iff₀ hpos two_pos]
        exact_mod_cast (by omega : rest * 2 < 1 * n)
      rw [compare_lt_iff_lt.mpr hlt]
      exact ⟨by linarith, by linarith⟩
    · have hhalf : (rest : ℝ) / n = 1 / 2 := by
        rw [div_eq_div_iff hpos.ne' two_ne_zero]
        exact_mod_cast (by omega : rest * 2 = 1 * n)
      rw [compare_eq_iff_eq.mpr heq]
      change (q : ℝ) + rest / n - q = q + 1 - (q + rest / n)
      linarith
    · have hhalf : 1 / 2 < (rest : ℝ) / n := by
        rw [div_lt_div_iff₀ two_pos hpos]
        exact_mod_cast (by omega : 1 * n < rest * 2)
      rw [compare_gt_iff_gt.mpr hgt]
      exact ⟨by linarith, by linarith⟩

/-- Two finite doubles are divided with as many places as the quotient has room for. -/
theorem holds_div_finite (s t : Sign) {m n : ℕ} (hm : 0 < m) (hn : 0 < n) (d e : ℤ) :
    Holds (UnpackedFloat.div Format.binary64 (.finite s m d hm) (.finite t n e hn))
      (nearest (signed s (m * 2 ^ d) / signed t (n * 2 ^ e))) := by
  have hmpos : (0 : ℝ) < m := by exact_mod_cast hm
  have hnpos : (0 : ℝ) < n := by exact_mod_cast hn
  obtain ⟨last, htarget⟩ : ∃ last, min (d - e) (Format.binary64.targetExponent
      (totalExponent m d - totalExponent n e)) = last := ⟨_, rfl⟩
  have hquotient : ((m <<< (d - e - last).toNat : ℕ) : ℝ) / n * 2 ^ last =
      m * 2 ^ d / (n * 2 ^ e) := by
    rw [div_mul_eq_mul_div, shiftLeft_mul_zpow m (by omega),
      zpow_sub₀ two_ne_zero]
    field_simp
  have hplace : last ≤ place (m * 2 ^ d / (n * 2 ^ e)) := by
    have hlarge : (2 : ℝ) ^ (52 + ((m.log2 : ℤ) - n.log2 + d - e - 53)) ≤
        m * 2 ^ d / (n * 2 ^ e) := by
      have hmlog : (2 : ℝ) ^ (m.log2 : ℤ) ≤ m := by
        exact_mod_cast Nat.log2_self_le hm.ne'
      have hnlog : (n : ℝ) ≤ 2 ^ ((n.log2 : ℤ) + 1) := by
        exact_mod_cast (Nat.lt_log2_self (n := n)).le
      rw [le_div_iff₀ (mul_pos hnpos (zpow_two_pos e))]
      calc
        (2 : ℝ) ^ (52 + ((m.log2 : ℤ) - n.log2 + d - e - 53)) * (n * 2 ^ e) ≤
            2 ^ (52 + ((m.log2 : ℤ) - n.log2 + d - e - 53)) *
              (2 ^ ((n.log2 : ℤ) + 1) * 2 ^ e) :=
          mul_le_mul_of_nonneg_left
            (mul_le_mul_of_nonneg_right hnlog (zpow_two_pos e).le) (zpow_two_pos _).le
        _ = 2 ^ (m.log2 : ℤ) * 2 ^ d := by
          simp only [← zpow_two_add]
          congr 1
          ring
        _ ≤ m * 2 ^ d := mul_le_mul_of_nonneg_right hmlog (zpow_two_pos d).le
    have hbits := le_place_of_zpow_le (hlarge.trans (le_abs_self _))
    have hleast := le_place (m * 2 ^ d / (n * 2 ^ e))
    rw [targetExponent_binary64] at htarget
    simp only [totalExponent] at htarget
    omega
  have hholds := holds_roundWithAccuracy (s / t) (e := last)
    (shows_fraction (m <<< (d - e - last).toNat) hn)
    (by
      rw [Nat.shiftLeft_eq]
      push_cast
      positivity)
    (by rwa [hquotient])
  rw [hquotient, signed_div, ← htarget] at hholds
  exact hholds

theorem rounds_div {x y : Float} (hx : x.isFinite = true) (hy : y.isFinite = true)
    (hzero : real y ≠ 0) : Rounds (x / y) (real x / real y) := by
  suffices hholds : Holds (UnpackedFloat.div Format.binary64 (parts x) (parts y))
      (nearest (real x / real y)) from rounds_of_holds hholds
  rcases parts_cases hy with ⟨t, -, hyreal⟩ | ⟨t, n, e, hn, hyparts, hyreal, -⟩
  · exact absurd hyreal hzero
  · rcases parts_cases hx with ⟨s, hxparts, hxreal⟩ | ⟨s, m, d, hm, hxparts, hxreal, -⟩
    · rw [hxreal, zero_div, nearest_zero, hxparts, hyparts]
      exact ⟨rfl, trivial, rfl⟩
    · rw [hxparts, hyparts, hxreal, hyreal]
      exact holds_div_finite s t hm hn d e

/-! ## Square roots -/

/-- The remainder of the integer square root tells on which side of a half the root
lies. -/
theorem shows_sqrt (m : ℕ) :
    Shows (.ofMantissaAndAccuracy (Nat.sqrt m)
      (if m - Nat.sqrt m * Nat.sqrt m = 0 then .exact
       else .inexact (if m - Nat.sqrt m * Nat.sqrt m ≤ Nat.sqrt m then .lt else .gt)))
      (Real.sqrt m) := by
  have hlow := Nat.sqrt_le m
  have hhigh := Nat.lt_succ_sqrt m
  generalize Nat.sqrt m = root at *
  have hroot : (0 : ℝ) ≤ root := root.cast_nonneg
  split_ifs with hexact hhalf
  · obtain rfl : m = root * root := by omega
    rw [Nat.cast_mul, Real.sqrt_mul_self hroot]
    exact shows_exact root
  · have habove : (root : ℝ) < Real.sqrt m := by
      rw [Real.lt_sqrt hroot, sq]
      exact_mod_cast (by omega : root * root < m)
    have hbelow : Real.sqrt m < root + 1 / 2 := by
      have hrest : (m : ℝ) ≤ root * root + root := by
        exact_mod_cast (by omega : m ≤ root * root + root)
      rw [Real.sqrt_lt' (by linarith)]
      linarith [sq (root + 1 / 2 : ℝ)]
    exact ⟨habove, by linarith⟩
  · have habove : root + 1 / 2 < Real.sqrt m := by
      have hrest : (root * root + root + 1 : ℝ) ≤ m := by
        exact_mod_cast (by omega : root * root + root + 1 ≤ m)
      rw [Real.lt_sqrt (by linarith)]
      linarith [sq (root + 1 / 2 : ℝ)]
    have hbelow : Real.sqrt m < root + 1 := by
      rw [Real.sqrt_lt' (by linarith), sq]
      exact_mod_cast hhigh
    exact ⟨by linarith, hbelow⟩

theorem holds_sqrt_finite {m : ℕ} (hm : 0 < m) (e : ℤ) :
    Holds (UnpackedFloat.sqrt Format.binary64 (.finite .positive m e hm))
      (nearest (Real.sqrt (m * 2 ^ e))) := by
  have hmpos : (0 : ℝ) < m := by exact_mod_cast hm
  obtain ⟨last, htarget⟩ : ∃ last, min (e / 2) (Format.binary64.targetExponent
      ((totalExponent m e + 1) / 2)) = last := ⟨_, rfl⟩
  have hroot : Real.sqrt (m <<< (e - 2 * last).toNat : ℕ) * 2 ^ last =
      Real.sqrt (m * 2 ^ e) := by
    rw [← shiftLeft_mul_zpow m (d := 2 * last) (by omega), Real.sqrt_mul (Nat.cast_nonneg _),
      mul_comm 2 last, zpow_mul]
    congr 1
    exact (Real.sqrt_sq (zpow_two_pos last).le).symm
  have hplace : last ≤ place (Real.sqrt (m * 2 ^ e)) := by
    have hlarge : (2 : ℝ) ^ (52 + ((m.log2 + 1 + e + 1) / 2 - 53)) ≤
        Real.sqrt (m * 2 ^ e) := by
      have hlog : (2 : ℝ) ^ (m.log2 : ℤ) ≤ m := by
        exact_mod_cast Nat.log2_self_le hm.ne'
      apply Real.le_sqrt_of_sq_le
      calc
        ((2 : ℝ) ^ (52 + (((m.log2 : ℤ) + 1 + e + 1) / 2 - 53))) ^ 2 =
            2 ^ ((52 + (((m.log2 : ℤ) + 1 + e + 1) / 2 - 53)) * 2) := (zpow_mul _ _ 2).symm
        _ ≤ 2 ^ ((m.log2 : ℤ) + e) := zpow_two_le (by omega)
        _ = 2 ^ (m.log2 : ℤ) * 2 ^ e := zpow_two_add _ e
        _ ≤ m * 2 ^ e := mul_le_mul_of_nonneg_right hlog (zpow_two_pos e).le
    have hbits := le_place_of_zpow_le (hlarge.trans (le_abs_self _))
    have hleast := le_place (Real.sqrt (m * 2 ^ e))
    rw [targetExponent_binary64] at htarget
    simp only [totalExponent] at htarget
    omega
  have hholds := holds_roundWithAccuracy .positive (e := last)
    (shows_sqrt (m <<< (e - 2 * last).toNat))
    (by
      rw [Nat.shiftLeft_eq]
      push_cast
      positivity)
    (by rwa [hroot])
  rw [hroot, signed] at hholds
  rw [← htarget] at hholds
  exact hholds

theorem rounds_sqrt {x : Float} (hx : x.isFinite = true) (hpos : 0 ≤ real x) :
    Rounds (Float.sqrt x) (Real.sqrt (real x)) := by
  suffices hholds : Holds (UnpackedFloat.sqrt Format.binary64 (parts x))
      (nearest (Real.sqrt (real x))) from rounds_of_holds hholds
  rcases parts_cases hx with ⟨s, hparts, hreal⟩ | ⟨s, m, e, hm, hparts, hreal, -⟩
  · rw [hreal, Real.sqrt_zero, nearest_zero, hparts]
    exact ⟨rfl, trivial, rfl⟩
  · have hmagnitude : (0 : ℝ) < m * 2 ^ e :=
      mul_pos (by exact_mod_cast hm) (zpow_two_pos e)
    rw [hparts, hreal]
    cases s with
    | negative =>
        rw [hreal, signed] at hpos
        linarith
    | positive => exact holds_sqrt_finite hm e

/-! ## Natural numbers -/

theorem natCast_lt_limit {n : ℕ} (hn : n < 2 ^ 1023) : |(n : ℝ)| < limit := by
  rw [Nat.abs_cast]
  calc
    (n : ℝ) < 2 ^ (1023 : ℕ) := by exact_mod_cast hn
    _ = 2 ^ (1023 : ℤ) := (zpow_natCast 2 1023).symm
    _ < limit := zpow_lt_limit (by norm_num)

theorem isDouble_natCast {n : ℕ} (hn : n ≤ 2 ^ 53) : IsDouble n :=
  isDouble_intCast (m := n) (by rw [Nat.abs_cast]; exact_mod_cast hn)

theorem real_ofBits_one : real (.ofBits 0x3FF0000000000000) = 1 := by
  have hparts : parts (.ofBits 0x3FF0000000000000) =
      .finite .positive (2 ^ 52) (-52) (by decide) := rfl
  rw [real, value, hparts, unpackedValue, EReal.toReal_coe, signed, twoPow]
  norm_num

theorem rounds_toFloat (n : UInt64) : Rounds n.toFloat n.toNat := by
  have hholds := holds_normalize n.toNat 0 .positive
  rw [zpow_zero, mul_one] at hholds
  exact rounds_of_holds hholds

/-- Below `2 ^ 53` a number is converted as a word, and multiplied by one. -/
theorem ofNat_of_lt {n : ℕ} (hn : n < 2 ^ 53) :
    Float.ofNat n = n.toUInt64.toFloat * .ofBits 0x3FF0000000000000 := by
  change Float.ofScientific n false 0 = _
  unfold Float.ofScientific
  rw [dif_pos ⟨hn, by decide⟩]
  rfl

/-- All other numbers are rounded like decimals. -/
theorem ofNat_of_le {n : ℕ} (hn : 2 ^ 53 ≤ n) :
    Float.ofNat n = .ofModel (Float.Model.pack (UnpackedFloat.mul Format.binary64
      (.finite .positive (n <<< 53) (-53)
        (by rw [Nat.shiftLeft_eq]; exact Nat.mul_pos (by omega) (by decide)))
      (.finite .positive 1 0 Nat.one_pos))) := by
  change Float.ofScientific n false 0 = _
  unfold Float.ofScientific
  rw [dif_neg (by omega)]
  change Float.ofModel (Float.Model.pack (UnpackedFloat.ofScientific Format.binary64 n 0)) = _
  unfold UnpackedFloat.ofScientific
  rw [dif_neg (by omega), if_neg (by decide), if_neg (by simp), if_pos (le_refl _)]
  rfl

theorem rounds_ofNat (n : ℕ) : Rounds (Float.ofNat n) n := by
  rcases lt_or_ge n (2 ^ 53) with hsmall | hlarge
  · have hword : Rounds n.toUInt64.toFloat n := by
      have hrounds := rounds_toFloat n.toUInt64
      have htoNat : n.toUInt64.toNat = n := Nat.mod_eq_of_lt (by omega)
      rwa [htoNat] at hrounds
    obtain ⟨hfinite, hreal⟩ := hword.exact (isDouble_natCast hsmall.le)
      (natCast_lt_limit (by omega))
    have hproduct := rounds_mul (y := .ofBits 0x3FF0000000000000) hfinite rfl
    rw [hreal, real_ofBits_one, mul_one, ← ofNat_of_lt hsmall] at hproduct
    exact hproduct
  · rw [ofNat_of_le hlarge]
    have hholds := holds_mul_finite .positive .positive (m := n <<< 53) (n := 1) (d := -53)
      (e := 0) (by rw [Nat.shiftLeft_eq]; omega) Nat.one_pos
      (.inl (by rw [Nat.shiftLeft_eq]; omega))
    have hvalue : signed .positive (((n <<< 53 : ℕ) : ℝ) * 2 ^ (-53 : ℤ)) *
        signed .positive ((1 : ℕ) * 2 ^ (0 : ℤ)) = n := by
      rw [signed, signed, Nat.shiftLeft_eq, zpow_zero]
      push_cast
      norm_num
      ring
    rw [hvalue] at hholds
    exact rounds_of_holds hholds

/-- Natural numbers of at most 53 bits are converted exactly. -/
theorem exact_ofNat {n : ℕ} (hn : n ≤ 2 ^ 53) :
    (Float.ofNat n).isFinite = true ∧ real (Float.ofNat n) = n :=
  (rounds_ofNat n).exact (isDouble_natCast hn) (natCast_lt_limit (by omega))

theorem real_zero : real 0 = 0 := by
  have hzero := (exact_ofNat (n := 0) (by norm_num)).2
  rwa [Nat.cast_zero] at hzero

theorem real_unit : real 1 = 1 := by
  have hone := (exact_ofNat (n := 1) (by norm_num)).2
  rwa [Nat.cast_one] at hone

theorem isDouble_one : IsDouble 1 := by
  exact_mod_cast isDouble_natCast (n := 1) (by norm_num)

theorem isDouble_zero : IsDouble 0 := by
  exact_mod_cast isDouble_natCast (n := 0) (by norm_num)

/-- Large doubles are multiples of large powers of two. -/
theorem exists_intCast_mul_of_isDouble {r : ℝ} (hr : IsDouble r) {d : ℤ}
    (hlarge : 2 ^ (52 + d) ≤ |r|) : ∃ k : ℤ, r = k * 2 ^ d := by
  obtain ⟨m, e, hm, -, rfl⟩ := hr
  rcases le_or_gt d e with hde | hed
  · exact exists_intCast_mul_zpow hde m
  · have hsmall : |(m : ℝ) * 2 ^ e| < 2 ^ (52 + d) := by
      rw [abs_mul, abs_of_pos (zpow_two_pos e)]
      calc
        |(m : ℝ)| * 2 ^ e < 2 ^ (53 : ℤ) * 2 ^ e :=
          mul_lt_mul_of_pos_right (by exact_mod_cast hm) (zpow_two_pos e)
        _ = 2 ^ (53 + e) := (zpow_two_add 53 e).symm
        _ ≤ 2 ^ (52 + d) := zpow_two_le (by omega)
    exact absurd hlarge hsmall.not_ge

/-- From `2 ^ 52` on doubles have no places behind the point. -/
theorem exists_intCast_of_isDouble {r : ℝ} (hr : IsDouble r) (hlarge : 2 ^ (52 : ℤ) ≤ |r|) :
    ∃ k : ℤ, r = k := by
  obtain ⟨k, hk⟩ := exists_intCast_mul_of_isDouble hr (d := 0) hlarge
  exact ⟨k, by rw [hk, zpow_zero, mul_one]⟩

/-- Every double is at most a whole number that is a double as well. -/
theorem exists_natCast_isDouble {r : ℝ} (hr : IsDouble r) (hlimit : |r| < limit) :
    ∃ n : ℕ, |r| ≤ n ∧ IsDouble n ∧ (n : ℝ) < limit := by
  rcases le_or_gt (2 ^ (52 : ℤ)) |r| with hlarge | hsmall
  · obtain ⟨k, rfl⟩ := exists_intCast_of_isDouble hr hlarge
    have hmagnitude : (k.natAbs : ℝ) = |(k : ℝ)| := by rw [Nat.cast_natAbs, Int.cast_abs]
    rw [← hmagnitude] at hlimit ⊢
    refine ⟨k.natAbs, le_rfl, ?_, hlimit⟩
    rw [hmagnitude]
    rcases abs_choice (k : ℝ) with hsame | hneg
    · rwa [hsame]
    · rw [hneg]
      exact hr.neg
  · refine ⟨2 ^ 52, by exact_mod_cast hsmall.le, isDouble_natCast (by norm_num), ?_⟩
    exact_mod_cast zpow_lt_limit (e := 52) (by norm_num)

end ChartCompiler.Double
