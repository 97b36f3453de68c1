import Mathlib.Algebra.Order.Archimedean.Real.Basic
import Mathlib.Data.Int.Log
import Mathlib.Tactic.Linarith
import Mathlib.Tactic.NormNum
import Mathlib.Tactic.Positivity
import Mathlib.Tactic.Ring

/-!
# Rounding to doubles

A double is an integer of at most 53 bits times a power of two that is not below
`2 ^ -1074`, and `nearest r` is the double next to a real number `r`, the even one
of two. There is no greatest double here: overflow is dealt with where values are
read off the bits.
-/

namespace ChartCompiler.Double

/-! ## Rounding to integers -/

/-- The integer next to `r`, the even one of two. -/
noncomputable def halfEven (r : ℝ) : ℤ :=
  if r - ⌊r⌋ < 1 / 2 then ⌊r⌋
  else if 1 / 2 < r - ⌊r⌋ then ⌊r⌋ + 1
  else ⌊r⌋ + ⌊r⌋ % 2

theorem floor_le_halfEven (r : ℝ) : ⌊r⌋ ≤ halfEven r := by
  unfold halfEven
  split_ifs <;> omega

theorem halfEven_le_floor_add_one (r : ℝ) : halfEven r ≤ ⌊r⌋ + 1 := by
  unfold halfEven
  split_ifs <;> omega

theorem halfEven_intCast (n : ℤ) : halfEven n = n := by
  unfold halfEven
  rw [Int.floor_intCast, sub_self, if_pos (by norm_num)]

theorem halfEven_mono {r s : ℝ} (hrs : r ≤ s) : halfEven r ≤ halfEven s := by
  rcases (Int.floor_le_floor hrs).lt_or_eq with hlt | heq
  · have hr := halfEven_le_floor_add_one r
    have hs := floor_le_halfEven s
    omega
  · unfold halfEven
    rw [heq]
    split_ifs <;> first | omega | linarith

/-- Rounding goes no further than half a step. -/
theorem abs_halfEven_sub_le (r : ℝ) : |(halfEven r : ℝ) - r| ≤ 1 / 2 := by
  have hfloor := Int.floor_le r
  have hceil := Int.lt_floor_add_one r
  rw [abs_le]
  unfold halfEven
  split_ifs with hbelow habove
  · constructor <;> linarith
  · push_cast
    constructor <;> linarith
  · rcases Int.emod_two_eq_zero_or_one ⌊r⌋ with heven | hodd
    · rw [heven]
      push_cast
      constructor <;> linarith
    · rw [hodd]
      push_cast
      constructor <;> linarith

/-- At half a step from two integers the even one is taken. -/
theorem halfEven_emod_two {r : ℝ} (hr : |(halfEven r : ℝ) - r| = 1 / 2) :
    halfEven r % 2 = 0 := by
  have hfloor := Int.floor_le r
  have hceil := Int.lt_floor_add_one r
  unfold halfEven at hr ⊢
  split_ifs at hr ⊢ with hbelow habove
  · rw [abs_sub_comm, abs_of_nonneg (by linarith)] at hr
    exact absurd hr hbelow.ne
  · push_cast at hr
    rw [abs_of_nonneg (by linarith)] at hr
    linarith
  · omega

/-- The integer within half a step of a number, the even one of two. -/
theorem halfEven_eq {r : ℝ} {n : ℤ} (hn : |(n : ℝ) - r| ≤ 1 / 2)
    (heven : |(n : ℝ) - r| = 1 / 2 → n % 2 = 0) : halfEven r = n := by
  have hround := abs_halfEven_sub_le r
  have hdistance : ((|halfEven r - n| : ℤ) : ℝ) ≤ |(halfEven r : ℝ) - r| + |(n : ℝ) - r| := by
    rw [abs_sub_comm (n : ℝ)]
    push_cast
    exact abs_sub_le _ _ _
  -- The two integers are less than a step apart, unless both are at half a step and so even.
  by_cases htie : |(halfEven r : ℝ) - r| = 1 / 2 ∧ |(n : ℝ) - r| = 1 / 2
  · have hboth := halfEven_emod_two htie.1
    have hother := heven htie.2
    rw [htie.1, htie.2, add_halves] at hdistance
    have hstep := abs_le.mp (show |halfEven r - n| ≤ 1 by exact_mod_cast hdistance)
    omega
  · have hclose : ((|halfEven r - n| : ℤ) : ℝ) < 1 := by
      refine hdistance.trans_lt (lt_of_le_of_ne (by linarith) fun hsum => htie ?_)
      constructor <;> linarith
    exact sub_eq_zero.mp (Int.abs_lt_one_iff.mp (by exact_mod_cast hclose))

/-- A number is rounded like another one, if it is no farther from the result than that. -/
theorem halfEven_eq_of_abs_sub_le {r s : ℝ}
    (hs : |(halfEven r : ℝ) - s| ≤ |(halfEven r : ℝ) - r|) : halfEven s = halfEven r := by
  have hround := abs_halfEven_sub_le r
  refine halfEven_eq (hs.trans hround) fun htie => halfEven_emod_two (le_antisymm hround ?_)
  rwa [htie] at hs

theorem halfEven_neg (r : ℝ) : halfEven (-r) = -halfEven r := by
  by_cases hint : r = ⌊r⌋
  · rw [hint, ← Int.cast_neg, halfEven_intCast, halfEven_intCast]
  · have hlow : (⌊r⌋ : ℝ) < r := lt_of_le_of_ne (Int.floor_le r) (Ne.symm hint)
    have hhigh := Int.lt_floor_add_one r
    have hfloor : ⌊-r⌋ = -⌊r⌋ - 1 := by
      apply Int.floor_eq_iff.mpr
      push_cast
      constructor <;> linarith
    unfold halfEven
    rw [hfloor]
    push_cast
    split_ifs <;> first | omega | linarith

/-! ## Powers of two -/

/-- What a unit at a binary place is worth. -/
noncomputable def twoPow (e : ℤ) : ℝ :=
  2 ^ e

theorem zpow_two_pos (e : ℤ) : (0 : ℝ) < 2 ^ e :=
  zpow_pos (by norm_num) e

theorem zpow_two_le {d e : ℤ} (hde : d ≤ e) : (2 : ℝ) ^ d ≤ 2 ^ e :=
  zpow_le_zpow_right₀ (by norm_num) hde

theorem zpow_two_add (d e : ℤ) : (2 : ℝ) ^ (d + e) = 2 ^ d * 2 ^ e :=
  zpow_add₀ (by norm_num) d e

/-- A multiple of a power of two is one of every smaller power. -/
theorem exists_intCast_mul_zpow {d e : ℤ} (hde : d ≤ e) (m : ℤ) :
    ∃ k : ℤ, (m : ℝ) * 2 ^ e = k * 2 ^ d := by
  refine ⟨m * 2 ^ (e - d).toNat, ?_⟩
  have hpow : (2 : ℝ) ^ e = 2 ^ (e - d).toNat * 2 ^ d := by
    rw [← zpow_natCast, ← zpow_two_add]
    congr 1
    omega
  rw [hpow]
  push_cast
  ring

/-! ## Doubles among the reals -/

/-- A number that a double can hold if it is not too large. -/
def IsDouble (r : ℝ) : Prop :=
  ∃ m e : ℤ, |m| < 2 ^ 53 ∧ -1074 ≤ e ∧ r = m * 2 ^ e

/-- The exponent of the last place of the doubles around `r`. -/
noncomputable def place (r : ℝ) : ℤ :=
  if r = 0 then -1074 else max (Int.log 2 |r| - 52) (-1074)

/-- The double next to `r`, the even one of two. -/
noncomputable def nearest (r : ℝ) : ℝ :=
  halfEven (r / 2 ^ place r) * 2 ^ place r

theorem le_place (r : ℝ) : -1074 ≤ place r := by
  unfold place
  split_ifs
  · exact le_refl _
  · exact le_max_right _ _

theorem place_neg (r : ℝ) : place (-r) = place r := by
  rw [place, place, abs_neg]
  simp only [neg_eq_zero]

theorem place_le {r : ℝ} {e : ℤ} (he : -1074 ≤ e) (hr : |r| < 2 ^ (53 + e)) :
    place r ≤ e := by
  unfold place
  split_ifs with hzero
  · exact he
  · have hlog := (Int.lt_zpow_iff_log_lt (b := 2) (by norm_num) (abs_pos.mpr hzero)).mp
      (by exact_mod_cast hr)
    omega

/-- Around `r` doubles have 53 bits at most. -/
theorem abs_lt_zpow_place (r : ℝ) : |r| < 2 ^ (53 + place r) := by
  unfold place
  split_ifs with hzero
  · rw [hzero, abs_zero]
    exact zpow_two_pos _
  · calc
      |r| < 2 ^ (Int.log 2 |r| + 1) := by
        exact_mod_cast Int.lt_zpow_succ_log_self (b := 2) (by norm_num) |r|
      _ ≤ 2 ^ (53 + max (Int.log 2 |r| - 52) (-1074)) := zpow_two_le (by omega)

theorem le_place_of_zpow_le {r : ℝ} {e : ℤ} (hr : 2 ^ (52 + e) ≤ |r|) : e ≤ place r := by
  by_contra hbelow
  have hsmall : |r| < 2 ^ (52 + e) :=
    (abs_lt_zpow_place r).trans_le (zpow_two_le (by omega))
  exact absurd hr hsmall.not_ge

/-- Around `r` doubles have all 53 bits, except at the lower end of the exponents. -/
theorem zpow_place_le_abs {r : ℝ} (hplace : -1074 < place r) : 2 ^ (52 + place r) ≤ |r| := by
  unfold place at hplace ⊢
  split_ifs at hplace ⊢ with hzero
  · omega
  · calc
      (2 : ℝ) ^ (52 + max (Int.log 2 |r| - 52) (-1074)) ≤ 2 ^ Int.log 2 |r| :=
        zpow_two_le (by omega)
      _ ≤ |r| := by
        exact_mod_cast Int.zpow_log_le_self (b := 2) (by norm_num) (abs_pos.mpr hzero)

theorem IsDouble.neg {r : ℝ} (hr : IsDouble r) : IsDouble (-r) := by
  obtain ⟨m, e, hm, he, rfl⟩ := hr
  exact ⟨-m, e, by rwa [abs_neg], he, by push_cast; ring⟩

theorem isDouble_mul_zpow {m e : ℤ} (hm : |m| ≤ 2 ^ 53) (he : -1074 ≤ e) :
    IsDouble (m * 2 ^ e) := by
  rcases hm.lt_or_eq with hlt | heq
  · exact ⟨m, e, hlt, he, rfl⟩
  · have hcarry : (2 : ℝ) ^ (53 + e) = 2 ^ 53 * 2 ^ e := zpow_two_add 53 e
    rcases (abs_eq (by norm_num)).mp heq with hm | hm
    · exact ⟨1, 53 + e, by norm_num, by omega, by rw [hcarry, hm]; norm_num⟩
    · exact ⟨-1, 53 + e, by norm_num, by omega, by rw [hcarry, hm]; norm_num⟩

theorem isDouble_zpow {e : ℤ} (he : -1074 ≤ e) : IsDouble (2 ^ e) :=
  ⟨1, e, by norm_num, he, by norm_num⟩

theorem isDouble_intCast {m : ℤ} (hm : |m| ≤ 2 ^ 53) : IsDouble m := by
  have hdouble := isDouble_mul_zpow (e := 0) hm (by norm_num)
  rwa [zpow_zero, mul_one] at hdouble

/-! ## The nearest double -/

theorem nearest_neg (r : ℝ) : nearest (-r) = -nearest r := by
  unfold nearest
  rw [place_neg, neg_div, halfEven_neg]
  push_cast
  ring

/-- Doubles stay as they are. -/
theorem nearest_of_isDouble {r : ℝ} (hr : IsDouble r) : nearest r = r := by
  obtain ⟨m, e, hm, he, rfl⟩ := hr
  have hbound : |(m : ℝ) * 2 ^ e| < 2 ^ (53 + e) := by
    rw [abs_mul, abs_of_pos (zpow_two_pos e), zpow_two_add]
    exact mul_lt_mul_of_pos_right (by exact_mod_cast hm) (zpow_two_pos e)
  obtain ⟨k, hk⟩ := exists_intCast_mul_zpow (place_le he hbound) m
  have hquotient : (m : ℝ) * 2 ^ e / 2 ^ place (m * 2 ^ e) = k := by
    rw [div_eq_iff (zpow_two_pos _).ne']
    exact hk
  rw [nearest, hquotient, halfEven_intCast]
  exact hk.symm

theorem nearest_zero : nearest 0 = 0 :=
  nearest_of_isDouble ⟨0, 0, by norm_num, by norm_num, by norm_num⟩

theorem abs_halfEven_place_le (r : ℝ) : |halfEven (r / 2 ^ place r)| ≤ 2 ^ 53 := by
  have hbound : |r / 2 ^ place r| ≤ ((2 ^ 53 : ℤ) : ℝ) := by
    rw [abs_div, abs_of_pos (zpow_two_pos _), div_le_iff₀ (zpow_two_pos _)]
    calc
      |r| ≤ 2 ^ (53 + place r) := (abs_lt_zpow_place r).le
      _ = ((2 ^ 53 : ℤ) : ℝ) * 2 ^ place r := by
        rw [zpow_two_add]
        norm_num
  obtain ⟨hlow, hhigh⟩ := abs_le.mp hbound
  apply abs_le.mpr
  constructor
  · have hmono := halfEven_mono hlow
    rwa [← Int.cast_neg, halfEven_intCast] at hmono
  · have hmono := halfEven_mono hhigh
    rwa [halfEven_intCast] at hmono

theorem isDouble_nearest (r : ℝ) : IsDouble (nearest r) :=
  isDouble_mul_zpow (abs_halfEven_place_le r) (le_place r)

/-- Rounding goes no further than half a unit of the last place. -/
theorem abs_nearest_sub_le {r : ℝ} {e : ℤ} (he : -1074 ≤ e) (hr : |r| < 2 ^ (53 + e)) :
    |nearest r - r| ≤ 2 ^ (e - 1) := by
  have hsplit : nearest r - r =
      (halfEven (r / 2 ^ place r) - r / 2 ^ place r) * 2 ^ place r := by
    rw [sub_mul, div_mul_cancel₀ _ (zpow_two_pos _).ne']
    rfl
  rw [hsplit, abs_mul, abs_of_pos (zpow_two_pos _)]
  calc
    |(halfEven (r / 2 ^ place r) : ℝ) - r / 2 ^ place r| * 2 ^ place r ≤
        1 / 2 * 2 ^ place r :=
      mul_le_mul_of_nonneg_right (abs_halfEven_sub_le _) (zpow_two_pos _).le
    _ = 2 ^ (place r - 1) := by
      rw [sub_eq_add_neg, zpow_two_add]
      norm_num
      ring
    _ ≤ 2 ^ (e - 1) := zpow_two_le (by have := place_le he hr; omega)

/-- Rounding never passes a double. -/
theorem nearest_le {r d : ℝ} (hd : IsDouble d) (hrd : r ≤ d) : nearest r ≤ d := by
  obtain ⟨m, e, hm, he, rfl⟩ := hd
  rcases le_or_gt (place r) e with hcoarse | hfine
  · obtain ⟨k, hk⟩ := exists_intCast_mul_zpow hcoarse m
    rw [hk] at hrd ⊢
    have hquotient : r / 2 ^ place r ≤ k := (div_le_iff₀ (zpow_two_pos _)).mpr hrd
    have hrounded := halfEven_mono hquotient
    rw [halfEven_intCast] at hrounded
    exact mul_le_mul_of_nonneg_right (by exact_mod_cast hrounded) (zpow_two_pos _).le
  · -- `d` is too small for the places around `r`, so `r` is below zero and far from it.
    have hsmall : |(m : ℝ) * 2 ^ e| < 2 ^ (52 + place r) := by
      rw [abs_mul, abs_of_pos (zpow_two_pos e)]
      calc
        |(m : ℝ)| * 2 ^ e < 2 ^ 53 * 2 ^ e :=
          mul_lt_mul_of_pos_right (by exact_mod_cast hm) (zpow_two_pos e)
        _ = 2 ^ (53 + e) := (zpow_two_add 53 e).symm
        _ ≤ 2 ^ (52 + place r) := zpow_two_le (by omega)
    have hlarge := zpow_place_le_abs (r := r) (by omega)
    have hfar : r ≤ -2 ^ (52 + place r) := by
      rcases le_abs'.mp hlarge with hneg | hpos
      · exact hneg
      · linarith [le_abs_self ((m : ℝ) * 2 ^ e)]
    have hquotient : r / 2 ^ place r ≤ ((-2 ^ 52 : ℤ) : ℝ) := by
      rw [div_le_iff₀ (zpow_two_pos _)]
      calc
        r ≤ -2 ^ (52 + place r) := hfar
        _ = ((-2 ^ 52 : ℤ) : ℝ) * 2 ^ place r := by
          rw [zpow_two_add]
          norm_num
    have hrounded := halfEven_mono hquotient
    rw [halfEven_intCast] at hrounded
    have hnearest : nearest r ≤ -2 ^ (52 + place r) := by
      calc
        nearest r ≤ ((-2 ^ 52 : ℤ) : ℝ) * 2 ^ place r :=
          mul_le_mul_of_nonneg_right (by exact_mod_cast hrounded) (zpow_two_pos _).le
        _ = -2 ^ (52 + place r) := by
          rw [zpow_two_add]
          push_cast
          norm_num
    linarith [neg_abs_le ((m : ℝ) * 2 ^ e)]

theorem le_nearest {r d : ℝ} (hd : IsDouble d) (hdr : d ≤ r) : d ≤ nearest r := by
  have hneg := nearest_le hd.neg (neg_le_neg hdr)
  rw [nearest_neg] at hneg
  exact neg_le_neg_iff.mp hneg

/-- Rounding keeps the order: of two numbers with different last places, a power of
two stands between. -/
theorem nearest_mono {r s : ℝ} (hrs : r ≤ s) : nearest r ≤ nearest s := by
  rcases lt_trichotomy (place r) (place s) with hlt | heq | hgt
  · have hlarge := zpow_place_le_abs (r := s) (by have := le_place r; omega)
    have hsmall : |r| < 2 ^ (52 + place s) :=
      (abs_lt_zpow_place r).trans_le (zpow_two_le (by omega))
    have hbetween : r ≤ 2 ^ (52 + place s) ∧ 2 ^ (52 + place s) ≤ s := by
      refine ⟨(le_abs_self r).trans hsmall.le, ?_⟩
      rcases le_abs'.mp hlarge with hneg | hpos
      · linarith [neg_abs_le r]
      · exact hpos
    have hdouble : IsDouble (2 ^ (52 + place s)) :=
      isDouble_zpow (by have := le_place s; omega)
    exact (nearest_le hdouble hbetween.1).trans (le_nearest hdouble hbetween.2)
  · unfold nearest
    rw [heq]
    have hquotient := div_le_div_of_nonneg_right hrs (zpow_two_pos (place s)).le
    exact mul_le_mul_of_nonneg_right (by exact_mod_cast halfEven_mono hquotient)
      (zpow_two_pos _).le
  · have hlarge := zpow_place_le_abs (r := r) (by have := le_place s; omega)
    have hsmall : |s| < 2 ^ (52 + place r) :=
      (abs_lt_zpow_place s).trans_le (zpow_two_le (by omega))
    have hbetween : r ≤ -2 ^ (52 + place r) ∧ -2 ^ (52 + place r) ≤ s := by
      refine ⟨?_, by linarith [neg_abs_le s]⟩
      rcases le_abs'.mp hlarge with hneg | hpos
      · exact hneg
      · linarith [le_abs_self s]
    have hdouble : IsDouble (-2 ^ (52 + place r)) :=
      (isDouble_zpow (by have := le_place r; omega)).neg
    exact (nearest_le hdouble hbetween.1).trans (le_nearest hdouble hbetween.2)

theorem nearest_nonneg {r : ℝ} (hr : 0 ≤ r) : 0 ≤ nearest r := by
  rw [← nearest_zero]
  exact nearest_mono hr

/-- Bounds that are doubles hold for the rounded number too. -/
theorem abs_nearest_le {r d : ℝ} (hd : IsDouble d) (hr : |r| ≤ d) : |nearest r| ≤ d := by
  obtain ⟨hlow, hhigh⟩ := abs_le.mp hr
  exact abs_le.mpr ⟨le_nearest hd.neg hlow, nearest_le hd hhigh⟩

end ChartCompiler.Double
