import ChartCompiler.Proofs.Double.Arithmetic

/-!
# Weighted means of doubles

A weighted mean is computed with four roundings: of the smaller weight's complement, of two
products, and of their sum. It is monotone in both numbers, it leaves their range by at most one
unit in the last place, and it never overflows. With quarters as weights equal numbers keep
their value, and the means of two different numbers are in order unless the numbers are
neighbours.
-/

namespace ChartCompiler.Double

/-! ## Closest doubles -/

theorem abs_halfEven_sub_le_abs_sub (r : ℝ) (k : ℤ) : |(halfEven r : ℝ) - r| ≤ |(k : ℝ) - r| := by
  have hfloor := Int.floor_le r
  have hceil := Int.lt_floor_add_one r
  have hhalf := abs_le.mp (abs_halfEven_sub_le r)
  have hrounded : |(halfEven r : ℝ) - r| ≤ r - ⌊r⌋ ∧ |(halfEven r : ℝ) - r| ≤ ⌊r⌋ + 1 - r := by
    rw [abs_le, abs_le]
    unfold halfEven at hhalf ⊢
    split_ifs at hhalf ⊢ with hbelow habove
    · constructor <;> constructor <;> linarith
    · push_cast at hhalf ⊢
      constructor <;> constructor <;> linarith
    · constructor <;> constructor <;> linarith
  rcases le_or_gt k ⌊r⌋ with hbelow | habove
  · have hk : (k : ℝ) ≤ ⌊r⌋ := by exact_mod_cast hbelow
    rw [abs_sub_comm (k : ℝ), abs_of_nonneg (by linarith : (0 : ℝ) ≤ r - k)]
    linarith
  · have hk : (⌊r⌋ : ℝ) + 1 ≤ k := by exact_mod_cast habove
    rw [abs_of_nonneg (by linarith : (0 : ℝ) ≤ k - r)]
    linarith

/-- No double is closer to a number than the nearest one. -/
theorem abs_nearest_sub_le_abs_sub {r d : ℝ} (hd : IsDouble d) : |nearest r - r| ≤ |d - r| := by
  have hmultiple : ∀ k : ℤ, |nearest r - r| ≤ |k * 2 ^ place r - r| := by
    intro k
    have hsplit : ∀ m : ℤ, (m : ℝ) * 2 ^ place r - r = (m - r / 2 ^ place r) * 2 ^ place r := by
      intro m
      rw [sub_mul, div_mul_cancel₀ _ (zpow_two_pos _).ne']
    rw [nearest, hsplit, hsplit, abs_mul, abs_mul]
    exact mul_le_mul_of_nonneg_right (abs_halfEven_sub_le_abs_sub _ k) (abs_nonneg _)
  by_cases hgrid : ∃ k : ℤ, d = k * 2 ^ place r
  · obtain ⟨k, rfl⟩ := hgrid
    exact hmultiple k
  · -- A finer double is smaller than a power of two that stands between it and `r`.
    have hsmall : |d| < 2 ^ (52 + place r) := by
      by_contra hlarge
      exact hgrid (exists_intCast_mul_of_isDouble hd (not_lt.mp hlarge))
    have hplace : -1074 < place r := by
      by_contra hleast
      obtain ⟨m, e, -, he, rfl⟩ := hd
      exact hgrid (exists_intCast_mul_zpow (by omega) m)
    have hpower : (2 : ℝ) ^ (52 + place r) = (2 ^ 52 : ℤ) * 2 ^ place r := by
      rw [zpow_two_add]
      norm_num
    obtain ⟨hdlow, hdhigh⟩ := abs_lt.mp hsmall
    rcases le_abs'.mp (zpow_place_le_abs hplace) with hneg | hpos
    · have hbetween := hmultiple (-2 ^ 52)
      have hpowerSub : |-2 ^ (52 + place r) - r| = -2 ^ (52 + place r) - r :=
        abs_of_nonneg (by linarith)
      rw [Int.cast_neg, neg_mul, ← hpower, hpowerSub] at hbetween
      exact hbetween.trans (le_trans (by linarith) (le_abs_self (d - r)))
    · have hbetween := hmultiple (2 ^ 52)
      have hpowerSub : |2 ^ (52 + place r) - r| = -(2 ^ (52 + place r) - r) :=
        abs_of_nonpos (by linarith)
      rw [← hpower, hpowerSub] at hbetween
      exact hbetween.trans (le_trans (by linarith) (neg_le_abs (d - r)))

/-- What a double is rounded to on some scale, the double nearest to that is rounded to as well. -/
theorem halfEven_nearest_mul {r scale : ℝ} (hr : IsDouble r) (hscale : 0 < scale) :
    halfEven (nearest (halfEven (r * scale) / scale) * scale) = halfEven (r * scale) := by
  have hdistance : ∀ t : ℝ, |(halfEven (r * scale) : ℝ) - t * scale| =
      |t - halfEven (r * scale) / scale| * scale := by
    intro t
    rw [abs_sub_comm, ← abs_of_pos hscale, ← abs_mul, abs_of_pos hscale, sub_mul,
      div_mul_cancel₀ _ hscale.ne']
  apply halfEven_eq_of_abs_sub_le
  rw [hdistance, hdistance]
  exact mul_le_mul_of_nonneg_right (abs_nearest_sub_le_abs_sub hr) hscale.le

/-! ## Units in the last place -/

/-- What a unit in the last place of the doubles around a number is worth. -/
noncomputable def ulp (r : ℝ) : ℝ :=
  twoPow (place r)

theorem ulp_eq (r : ℝ) : ulp r = 2 ^ place r :=
  rfl

theorem ulp_pos (r : ℝ) : 0 < ulp r :=
  zpow_two_pos _

theorem half_ulp (r : ℝ) : (2 : ℝ) ^ (place r - 1) = ulp r / 2 := by
  rw [ulp_eq, zpow_sub₀ two_ne_zero, zpow_one]

theorem abs_lt_ulp (r : ℝ) : |r| < 2 ^ 53 * ulp r := by
  have hbits := abs_lt_zpow_place r
  rw [zpow_two_add] at hbits
  exact_mod_cast hbits

theorem place_eq {r : ℝ} {e : ℤ} (he : -1074 ≤ e) (hlow : 2 ^ 52 * 2 ^ e ≤ |r|)
    (hhigh : |r| < 2 ^ 53 * 2 ^ e) : place r = e := by
  refine le_antisymm (place_le he ?_) (le_place_of_zpow_le ?_)
  · rw [zpow_two_add]
    exact_mod_cast hhigh
  · rw [zpow_two_add]
    exact_mod_cast hlow

theorem nearest_eq_halfEven {r : ℝ} {e : ℤ} (he : -1074 ≤ e) (hlow : 2 ^ 52 * 2 ^ e ≤ |r|)
    (hhigh : |r| < 2 ^ 53 * 2 ^ e) : nearest r = halfEven (r / 2 ^ e) * 2 ^ e := by
  rw [nearest, place_eq he hlow hhigh]

/-- A double counts its units in the last place. -/
theorem exists_ulps {r : ℝ} (hr : IsDouble r) :
    ∃ k : ℤ, r = k * ulp r ∧ |k| < 2 ^ 53 ∧ (-1074 < place r → 2 ^ 52 ≤ |k|) := by
  have hunit := ulp_pos r
  have hgrid : ∃ k : ℤ, r = k * ulp r := by
    rcases (le_place r).lt_or_eq with hlarge | hleast
    · exact exists_intCast_mul_of_isDouble hr (zpow_place_le_abs hlarge)
    · obtain ⟨m, e, -, he, hshape⟩ := hr
      rw [hshape] at hleast ⊢
      exact exists_intCast_mul_zpow (by omega) m
  obtain ⟨k, hk⟩ := hgrid
  have habs : |r| = |k| * ulp r := by
    nth_rewrite 1 [hk]
    rw [abs_mul, abs_of_pos hunit, Int.cast_abs]
  have hbits := abs_lt_ulp r
  rw [habs] at hbits
  refine ⟨k, hk, by exact_mod_cast lt_of_mul_lt_mul_right hbits hunit.le, fun hplace => ?_⟩
  have hlarge := zpow_place_le_abs hplace
  rw [habs, zpow_two_add] at hlarge
  exact_mod_cast le_of_mul_le_mul_right hlarge hunit

/-- Smaller numbers are rounded by half a unit of a larger one at most. -/
theorem abs_nearest_sub_le_half_ulp {r m : ℝ} (hr : |r| ≤ |m|) : |nearest r - r| ≤ ulp m / 2 := by
  rw [← half_ulp]
  exact abs_nearest_sub_le (le_place m) (hr.trans_lt (abs_lt_zpow_place m))

/-- Halves of what fills a unit are rounded by half as much, unless the unit is the least one. -/
theorem abs_nearest_sub_le_quarter_ulp {r m : ℝ} (hplace : -1074 < place m)
    (hr : |r| < 2 ^ 52 * ulp m) : |nearest r - r| ≤ ulp m / 4 := by
  have hsmall : |r| < 2 ^ (53 + (place m - 1)) := by
    rw [show 53 + (place m - 1) = 52 + place m by ring, zpow_two_add, ← ulp_eq]
    exact_mod_cast hr
  refine (abs_nearest_sub_le (by omega) hsmall).trans (le_of_eq ?_)
  rw [show place m - 1 - 1 = place m - 2 by ring, zpow_sub₀ two_ne_zero, ulp_eq]
  norm_num

/-! ## Shares -/

/-- A part of one that is a double. -/
structure IsShare (w : ℝ) : Prop where
  isDouble : IsDouble w
  nonneg : 0 ≤ w
  le_one : w ≤ 1

theorem abs_mul_le_abs {x : ℝ} (hx : 0 ≤ x) (hone : x ≤ 1) (b : ℝ) : |b * x| ≤ |b| := by
  rw [abs_mul, abs_of_nonneg hx]
  exact mul_le_of_le_one_right (abs_nonneg b) hone

namespace IsShare

variable {w : ℝ} (hw : IsShare w)
include hw

/-- What is left of one, rounded. -/
theorem rest : IsShare (nearest (1 - w)) :=
  ⟨isDouble_nearest _, le_nearest isDouble_zero (by linarith [hw.le_one]),
    nearest_le isDouble_one (by linarith [hw.nonneg])⟩

/-- From a half on the rest is exact. -/
theorem rest_eq (hhalf : 1 / 2 ≤ w) : nearest (1 - w) = 1 - w := by
  obtain ⟨k, hk⟩ := exists_intCast_mul_of_isDouble hw.isDouble (d := -53)
    (by norm_num; linarith [le_abs_self w])
  have hone := hw.le_one
  norm_num at hk
  have hlow : (2 : ℝ) ^ 52 ≤ k := by linarith
  have hhigh : (k : ℝ) ≤ 2 ^ 53 := by linarith
  have hbits : |(2 ^ 53 - k : ℤ)| ≤ 2 ^ 53 := by
    rw [abs_le]
    have hlow' : (2 : ℤ) ^ 52 ≤ k := by exact_mod_cast hlow
    have hhigh' : k ≤ (2 : ℤ) ^ 53 := by exact_mod_cast hhigh
    omega
  have hdouble := isDouble_mul_zpow hbits (e := -53) (by norm_num)
  refine nearest_of_isDouble ?_
  convert hdouble using 1
  push_cast
  norm_num
  linarith

/-- The rest is rounded below one. -/
theorem abs_rest_sub_le : |nearest (1 - w) - (1 - w)| ≤ 1 / 2 ^ 54 := by
  rcases hw.nonneg.lt_or_eq with hpos | hzero
  · have hsmall : |1 - w| < 2 ^ (53 + -53 : ℤ) := by
      rw [abs_of_nonneg (by linarith [hw.le_one])]
      norm_num
      exact hpos
    refine (abs_nearest_sub_le (by norm_num) hsmall).trans (le_of_eq ?_)
    norm_num
  · rw [← hzero, sub_zero, nearest_of_isDouble isDouble_one, sub_self, abs_zero]
    positivity

theorem abs_mul_le (b : ℝ) : |b * w| ≤ |b| :=
  abs_mul_le_abs hw.nonneg hw.le_one b

/-- The rounded rest moves a product by less than half a unit. -/
theorem abs_mul_rest_sub_lt {b m : ℝ} (hb : |b| ≤ |m|) :
    |b * nearest (1 - w) - b * (1 - w)| < ulp m / 2 := by
  have hbits := hb.trans_lt (abs_lt_ulp m)
  have hrest := hw.abs_rest_sub_le
  rw [← mul_sub, abs_mul]
  calc
    |b| * |nearest (1 - w) - (1 - w)| ≤ |b| * (1 / 2 ^ 54) :=
      mul_le_mul_of_nonneg_left hrest (abs_nonneg b)
    _ < 2 ^ 53 * ulp m * (1 / 2 ^ 54) := mul_lt_mul_of_pos_right hbits (by positivity)
    _ = ulp m / 2 := by ring

end IsShare

/-! ## Weighted means -/

/-- A weighted mean as it is computed: the sum of two products, all of them rounded. -/
noncomputable def mixed (v w a b : ℝ) : ℝ :=
  nearest (nearest (a * v) + nearest (b * w))

theorem mixed_swap (v w a b : ℝ) : mixed v w a b = mixed w v b a := by
  rw [mixed, mixed, add_comm]

theorem mixed_neg (v w a b : ℝ) : mixed v w (-a) (-b) = -mixed v w a b := by
  unfold mixed
  rw [neg_mul, neg_mul, nearest_neg, nearest_neg, ← neg_add, nearest_neg]

theorem mixed_mono {v w : ℝ} (hv : 0 ≤ v) (hw : 0 ≤ w) {a b c d : ℝ} (hac : a ≤ c)
    (hbd : b ≤ d) : mixed v w a b ≤ mixed v w c d :=
  nearest_mono (add_le_add (nearest_mono (mul_le_mul_of_nonneg_right hac hv))
    (nearest_mono (mul_le_mul_of_nonneg_right hbd hw)))

section Mixed

variable {w : ℝ} (hw : IsShare w)
include hw

/-- The four roundings cost two and a half units of the larger number. -/
theorem abs_mixed_sub_le {a b m : ℝ} (ha : |a| ≤ |m|) (hb : |b| ≤ |m|) :
    |mixed (nearest (1 - w)) w a b - (a * (1 - w) + b * w)| ≤ 5 / 2 * ulp m := by
  have hbits := abs_lt_ulp m
  have hunit := ulp_pos m
  have hrest := abs_lt.mp (hw.abs_mul_rest_sub_lt ha)
  have hfirst := abs_le.mp (abs_nearest_sub_le_half_ulp ((hw.rest.abs_mul_le a).trans ha))
  have hsecond := abs_le.mp (abs_nearest_sub_le_half_ulp ((hw.abs_mul_le b).trans hb))
  have hexact : |a * (1 - w) + b * w| ≤ |m| := by
    have hleft : |a * (1 - w)| ≤ |m| * (1 - w) := by
      rw [abs_mul, abs_of_nonneg (by linarith [hw.le_one] : (0 : ℝ) ≤ 1 - w)]
      exact mul_le_mul_of_nonneg_right ha (by linarith [hw.le_one])
    have hright : |b * w| ≤ |m| * w := by
      rw [abs_mul, abs_of_nonneg hw.nonneg]
      exact mul_le_mul_of_nonneg_right hb hw.nonneg
    calc
      |a * (1 - w) + b * w| ≤ |a * (1 - w)| + |b * w| := abs_add_le _ _
      _ ≤ |m| := by linarith
  obtain ⟨hlow, hhigh⟩ := abs_le.mp hexact
  have hsum : |nearest (a * nearest (1 - w)) + nearest (b * w)| < 2 ^ (53 + (place m + 1)) := by
    have hroom : (2 : ℝ) ^ (53 + (place m + 1)) = 2 ^ 54 * ulp m := by
      rw [show 53 + (place m + 1) = 54 + place m by ring, zpow_two_add]
      rfl
    rw [hroom, abs_lt]
    constructor <;> linarith
  have hlast := abs_le.mp (abs_nearest_sub_le (by linarith [le_place m]) hsum)
  rw [add_sub_cancel_right] at hlast
  change -ulp m ≤ mixed (nearest (1 - w)) w a b - _ ∧
    mixed (nearest (1 - w)) w a b - _ ≤ ulp m at hlast
  rw [abs_le]
  constructor <;> linarith

/-- The sum of the two products of one number, one of which has at most half of its size. -/
theorem abs_products_sub_lt {b c : ℝ}
    (hsmall : ∀ x, 0 ≤ x → x ≤ 1 / 2 → |nearest (b * x) - b * x| ≤ c) :
    |nearest (b * nearest (1 - w)) + nearest (b * w) - b| < ulp b + c := by
  have hunit := ulp_pos b
  have hfirst := abs_le.mp (abs_nearest_sub_le_half_ulp (hw.rest.abs_mul_le b))
  have hsecond := abs_le.mp (abs_nearest_sub_le_half_ulp (hw.abs_mul_le b))
  rcases le_or_gt (1 / 2) w with hlarge | hless
  · rw [hw.rest_eq hlarge]
    have hrest := abs_le.mp (hsmall (1 - w) (by linarith [hw.le_one]) (by linarith))
    rw [abs_lt]
    constructor <;> linarith
  · have hrest := abs_lt.mp (hw.abs_mul_rest_sub_lt le_rfl (b := b))
    have hpart := abs_le.mp (hsmall w hw.nonneg hless.le)
    rw [abs_lt]
    constructor <;> linarith

omit hw in
theorem isDouble_neighbours {b : ℝ} (hb : IsDouble b) :
    IsDouble (b + ulp b) ∧ IsDouble (b - ulp b) := by
  obtain ⟨k, hk, hbits, -⟩ := exists_ulps hb
  obtain ⟨hkl, hkh⟩ := abs_lt.mp hbits
  constructor
  · have hdouble := isDouble_mul_zpow (m := k + 1) (abs_le.mpr (by omega)) (le_place b)
    rwa [Int.cast_add, Int.cast_one, add_mul, one_mul, ← ulp_eq, ← hk] at hdouble
  · have hdouble := isDouble_mul_zpow (m := k - 1) (abs_le.mpr (by omega)) (le_place b)
    rwa [Int.cast_sub, Int.cast_one, sub_mul, one_mul, ← ulp_eq, ← hk] at hdouble

omit hw in
/-- Sums within five quarters of a unit around a double are rounded to a neighbour at most. -/
theorem abs_nearest_sub_le_ulp {b s : ℝ} (hb : IsDouble b) (hplace : -1074 < place b)
    (hs : |s - b| < 5 / 4 * ulp b) : |nearest s - b| ≤ ulp b := by
  have hunit := ulp_pos b
  have hlarge := zpow_place_le_abs hplace
  obtain ⟨k, hk, -, -⟩ := exists_ulps hb
  obtain ⟨habove, hbelow⟩ := isDouble_neighbours hb
  obtain ⟨hslow, hshigh⟩ := abs_lt.mp hs
  rcases le_or_gt |s - b| (ulp b) with hnear | hfar
  · obtain ⟨hnlow, hnhigh⟩ := abs_le.mp hnear
    have hlow := le_nearest hbelow (r := s) (by linarith)
    have hhigh := nearest_le habove (r := s) (by linarith)
    rw [abs_le]
    constructor <;> linarith
  · -- A neighbour of `b` is close to the sum, and the nearest double is a multiple of half a unit.
    have hclose : |nearest s - s| < ulp b / 4 := by
      rcases lt_abs.mp hfar with hpos | hneg
      · refine (abs_nearest_sub_le_abs_sub habove).trans_lt ?_
        rw [abs_lt]
        constructor <;> linarith
      · refine (abs_nearest_sub_le_abs_sub hbelow).trans_lt ?_
        rw [abs_lt]
        constructor <;> linarith
    obtain ⟨hclow, hchigh⟩ := abs_lt.mp hclose
    have hwithin : |nearest s - b| < 3 / 2 * ulp b := by
      rw [abs_lt]
      constructor <;> linarith
    have hgrid : 2 ^ (52 + (place b - 1)) ≤ |nearest s| := by
      have hpower : (2 : ℝ) ^ (52 + place b) = 2 ^ 52 * ulp b := zpow_two_add 52 _
      have hhalf : (2 : ℝ) ^ (52 + (place b - 1)) = 2 ^ 51 * ulp b := by
        rw [show 52 + (place b - 1) = 51 + place b by ring]
        exact zpow_two_add 51 _
      have htriangle := abs_sub_abs_le_abs_sub b (nearest s)
      rw [abs_sub_comm] at htriangle
      rw [hpower] at hlarge
      rw [hhalf]
      linarith
    obtain ⟨j, hj⟩ := exists_intCast_mul_of_isDouble (isDouble_nearest s) hgrid
    have hdiff : nearest s - b = (j - 2 * k : ℤ) * (ulp b / 2) := by
      rw [hj, half_ulp]
      nth_rewrite 2 [hk]
      push_cast
      ring
    rw [hdiff, abs_mul, abs_of_pos (half_pos hunit)] at hwithin ⊢
    have hsteps : |j - 2 * k| < 3 := by
      have hcast : ((|j - 2 * k| : ℤ) : ℝ) < 3 := by
        push_cast at hwithin ⊢
        by_contra hnot
        nlinarith
      exact_mod_cast hcast
    have hle : ((|j - 2 * k| : ℤ) : ℝ) ≤ 2 := by exact_mod_cast Int.lt_add_one_iff.mp hsteps
    push_cast at hle ⊢
    nlinarith

/-- Mixed with itself, a double moves to a neighbour at most. -/
theorem abs_mixed_self_sub_le {b : ℝ} (hb : IsDouble b) :
    |mixed (nearest (1 - w)) w b b - b| ≤ ulp b := by
  rcases (le_place b).lt_or_eq with hplace | hleast
  · refine abs_nearest_sub_le_ulp hb hplace ?_
    have hsum := abs_products_sub_lt hw (b := b) (c := ulp b / 4) (fun x hx hhalf => ?_)
    · linarith
    · refine abs_nearest_sub_le_quarter_ulp hplace ?_
      have hbits := abs_lt_ulp b
      rw [abs_mul, abs_of_nonneg hx]
      nlinarith [abs_nonneg b]
  · -- At the lower end of the exponents sums are multiples of the unit, and so they are exact.
    have hunit := ulp_pos b
    have hsum := abs_products_sub_lt hw (b := b) (c := ulp b / 2) (fun x hx hhalf =>
      abs_nearest_sub_le_half_ulp (abs_mul_le_abs hx (by linarith) b))
    have hgrid : ∀ {d : ℝ}, IsDouble d → ∃ k : ℤ, d = k * ulp b := by
      rintro d ⟨m, e, -, he, rfl⟩
      exact exists_intCast_mul_zpow (by omega) m
    obtain ⟨k, hk, hkbits, -⟩ := exists_ulps hb
    obtain ⟨i, hi⟩ := hgrid (isDouble_nearest (b * nearest (1 - w)))
    obtain ⟨j, hj⟩ := hgrid (isDouble_nearest (b * w))
    have hdiff : nearest (b * nearest (1 - w)) + nearest (b * w) - b = (i + j - k : ℤ) * ulp b := by
      rw [hi, hj]
      nth_rewrite 3 [hk]
      push_cast
      ring
    have hsteps : |i + j - k| ≤ 1 := by
      rw [hdiff, abs_mul, abs_of_pos hunit] at hsum
      have hcast : ((|i + j - k| : ℤ) : ℝ) < 2 := by
        push_cast at hsum ⊢
        nlinarith
      exact Int.lt_add_one_iff.mp (by exact_mod_cast hcast)
    have hexact : nearest (nearest (b * nearest (1 - w)) + nearest (b * w)) =
        (i + j : ℤ) * ulp b := by
      have hsplit : nearest (b * nearest (1 - w)) + nearest (b * w) = (i + j : ℤ) * ulp b := by
        rw [hi, hj]
        push_cast
        ring
      rw [hsplit]
      refine nearest_of_isDouble (isDouble_mul_zpow ?_ (le_place b))
      rw [abs_le] at hsteps ⊢
      rw [abs_lt] at hkbits
      omega
    have hle : ((|i + j - k| : ℤ) : ℝ) ≤ 1 := by exact_mod_cast hsteps
    rw [mixed, hexact]
    nth_rewrite 2 [hk]
    rw [← sub_mul, abs_mul, abs_of_pos hunit]
    push_cast at hle ⊢
    exact mul_le_of_le_one_left hunit.le hle

end Mixed

/-! ## The largest double -/

theorem limit_eq : limit = 2 ^ 53 * twoPow 971 :=
  zpow_two_add 53 971

noncomputable def most : ℝ :=
  limit - twoPow 971

theorem most_eq : most = 2 ^ 53 * twoPow 971 - twoPow 971 := by
  rw [most, limit_eq]

theorem most_lt_limit : most < limit :=
  sub_lt_self _ (zpow_two_pos _)

theorem isDouble_most : IsDouble most := by
  have hdouble := isDouble_mul_zpow (m := 2 ^ 53 - 1) (e := 971) (by norm_num) (by norm_num)
  rw [most_eq, ← sub_one_mul]
  rwa [← twoPow, Int.cast_sub, Int.cast_pow, Int.cast_ofNat, Int.cast_one] at hdouble

/-- Below the middle of two neighbours rounding goes down. -/
theorem nearest_le_of_lt {r : ℝ} {k : ℤ} (hr : r < (k + 1 / 2) * ulp r) :
    nearest r ≤ k * ulp r := by
  have hunit := ulp_pos r
  have hquotient : r / ulp r < k + 1 / 2 := (div_lt_iff₀ hunit).mpr hr
  have hrounded := (abs_le.mp (abs_halfEven_sub_le (r / ulp r))).2
  have hbelow : halfEven (r / ulp r) < k + 1 := by
    have hcast : (halfEven (r / ulp r) : ℝ) < k + 1 := by linarith
    exact_mod_cast hcast
  exact mul_le_mul_of_nonneg_right (by exact_mod_cast Int.lt_add_one_iff.mp hbelow) hunit.le

/-- A part of the largest double is a part of the limit, less a unit of it or less. -/
theorem exists_most_mul {w : ℝ} (hw : IsShare w) (hpos : 0 < w) :
    ∃ (whole : ℝ) (k : ℤ), -102 ≤ place whole ∧ 2 ^ 52 ≤ k ∧ k < 2 ^ 53 ∧
      most * w = (k - k / 2 ^ 53) * ulp whole := by
  obtain ⟨m, e, hm, he, hdouble⟩ := hw.isDouble
  obtain ⟨whole, hwhole⟩ : ∃ whole, limit * w = whole := ⟨_, rfl⟩
  have hpart : most * w = whole - whole / 2 ^ 53 := by
    have hmost : most = limit - limit / 2 ^ 53 := by
      rw [most_eq, limit_eq, mul_div_cancel_left₀ _ (by norm_num)]
    rw [hmost, ← hwhole]
    ring
  have hshape : whole = m * 2 ^ (1024 + e) := by
    rw [← hwhole, hdouble, limit, twoPow, zpow_two_add]
    ring
  have hwpos : 0 < whole := by
    rw [← hwhole]
    exact mul_pos limit_pos hpos
  have hplace : -102 ≤ place whole := by
    have hone : (1 : ℝ) ≤ m := by
      rw [hshape] at hwpos
      exact_mod_cast pos_of_mul_pos_left hwpos (zpow_two_pos _).le
    refine le_place_of_zpow_le ?_
    rw [abs_of_pos hwpos, hshape]
    calc
      (2 : ℝ) ^ (52 + -102 : ℤ) ≤ 2 ^ (1024 + e) := zpow_two_le (by omega)
      _ ≤ m * 2 ^ (1024 + e) := le_mul_of_one_le_left (zpow_two_pos _).le hone
  obtain ⟨k, hk, hbits, hfull⟩ := exists_ulps ⟨m, 1024 + e, hm, by omega, hshape⟩
  have hkpos : 0 < k := by
    rw [hk] at hwpos
    exact_mod_cast pos_of_mul_pos_left hwpos (ulp_pos whole).le
  have hleast := hfull (by omega)
  rw [abs_of_pos hkpos] at hbits hleast
  refine ⟨whole, k, hplace, hleast, hbits, ?_⟩
  rw [hpart]
  nth_rewrite 1 2 [hk]
  ring

/-- Parts of the largest double are rounded down: they are less than a multiple of the unit, by half
a unit or more. -/
theorem nearest_most_mul_le {w : ℝ} (hw : IsShare w) : nearest (most * w) ≤ most * w := by
  rcases hw.nonneg.lt_or_eq with hpos | hzero
  · obtain ⟨whole, k, hplace, hleast, hbits, hexact⟩ := exists_most_mul hw hpos
    have hunit := ulp_pos whole
    have hhigh : (k : ℝ) < 2 ^ 53 := by exact_mod_cast hbits
    rcases hleast.lt_or_eq with hmore | heq
    · have hnext : (2 : ℝ) ^ 52 + 1 ≤ k := by exact_mod_cast hmore
      have hsame : place (most * w) = place whole := by
        have hnonneg : (0 : ℝ) ≤ k - k / 2 ^ 53 := by linarith
        refine place_eq (le_place whole) ?_ ?_
        · rw [hexact, abs_of_nonneg (mul_nonneg hnonneg hunit.le)]
          exact mul_le_mul_of_nonneg_right (by linarith) hunit.le
        · rw [hexact, abs_of_nonneg (mul_nonneg hnonneg hunit.le)]
          exact mul_lt_mul_of_pos_right (by linarith) hunit
      have hdown := nearest_le_of_lt (r := most * w) (k := k - 1) (by
        rw [ulp_eq, hsame, ← ulp_eq, hexact]
        push_cast
        refine mul_lt_mul_of_pos_right ?_ hunit
        linarith)
      rw [ulp_eq, hsame, ← ulp_eq] at hdown
      rw [hexact] at hdown ⊢
      refine hdown.trans (mul_le_mul_of_nonneg_right ?_ hunit.le)
      push_cast
      linarith
    · refine (nearest_of_isDouble ?_).le
      have hodd := isDouble_mul_zpow (m := 2 ^ 53 - 1) (e := place whole - 1) (by norm_num)
        (by omega)
      rw [half_ulp] at hodd
      convert hodd using 1
      rw [hexact, ← heq]
      push_cast
      ring
  · rw [← hzero, mul_zero, nearest_zero]

/-- Below the middle between the largest double and the limit rounding does not overflow. -/
theorem nearest_le_most {r : ℝ} (hr : r < most + twoPow 971 / 2) : nearest r ≤ most := by
  have hunit : 0 < twoPow 971 := zpow_two_pos 971
  have hmost := most_eq
  rcases le_or_gt r most with hfits | hover
  · exact nearest_le isDouble_most hfits
  · have hplace : place r = 971 := by
      refine place_eq (by norm_num) ?_ ?_
      · rw [← twoPow]
        exact le_trans (by linarith) (le_abs_self r)
      · rw [← twoPow, abs_of_nonneg (by linarith)]
        linarith
    have hdown := nearest_le_of_lt (r := r) (k := 2 ^ 53 - 1) (by
      rw [ulp_eq, hplace, ← twoPow]
      push_cast
      linarith)
    rw [ulp_eq, hplace, ← twoPow] at hdown
    push_cast at hdown
    linarith

/-- No weighted mean passes the largest double. -/
theorem abs_mixed_le_most {w a b : ℝ} (hw : IsShare w) (ha : |a| ≤ most) (hb : |b| ≤ most) :
    |mixed (nearest (1 - w)) w a b| ≤ most := by
  have hunit : 0 < twoPow 971 := zpow_two_pos 971
  have hself : mixed (nearest (1 - w)) w most most ≤ most := by
    have hrest := nearest_most_mul_le hw.rest
    have hpart := nearest_most_mul_le hw
    have hweights := (abs_le.mp hw.abs_rest_sub_le).2
    have hmost := most_eq
    have htotal := mul_le_mul_of_nonneg_left hweights (by linarith : 0 ≤ most)
    exact nearest_le_most (by linarith)
  obtain ⟨hal, hah⟩ := abs_le.mp ha
  obtain ⟨hbl, hbh⟩ := abs_le.mp hb
  have hhigh := mixed_mono hw.rest.nonneg hw.nonneg hah hbh
  have hlow := mixed_mono hw.rest.nonneg hw.nonneg hal hbl
  rw [mixed_neg] at hlow
  rw [abs_le]
  constructor <;> linarith

end ChartCompiler.Double
