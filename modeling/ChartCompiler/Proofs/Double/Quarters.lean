import ChartCompiler.Proofs.Double.Mixing

/-!
# Quarters of doubles

Three quarters of a double and a quarter of it are rounded in opposite directions, so that their
sum is that double again. Of two doubles with a third one between them the mean nearer to the smaller
one is at most the mean nearer to the larger one. Neither holds of all weights.
-/

namespace ChartCompiler.Double

/-! ## Rounded fractions -/

theorem div_lt_half_iff (r : ℤ) {m : ℕ} (hm : 0 < m) :
    (r : ℝ) / (2 * m : ℕ) < 1 / 2 ↔ r < m := by
  have hpos : (0 : ℝ) < (2 * m : ℕ) := by exact_mod_cast Nat.mul_pos two_pos hm
  have hhalf : 1 / 2 * ((2 * m : ℕ) : ℝ) = (m : ℤ) := by
    push_cast
    ring
  rw [div_lt_iff₀ hpos, hhalf, Int.cast_lt]

theorem half_lt_div_iff (r : ℤ) {m : ℕ} (hm : 0 < m) :
    1 / 2 < (r : ℝ) / (2 * m : ℕ) ↔ m < r := by
  have hpos : (0 : ℝ) < (2 * m : ℕ) := by exact_mod_cast Nat.mul_pos two_pos hm
  have hhalf : 1 / 2 * ((2 * m : ℕ) : ℝ) = (m : ℤ) := by
    push_cast
    ring
  rw [lt_div_iff₀ hpos, hhalf, Int.cast_lt]

/-- A fraction with an even denominator is rounded by a division of integers. -/
theorem halfEven_div (n : ℤ) {m : ℕ} (hm : 0 < m) :
    halfEven (n / (2 * m : ℕ)) = (n + m - 1 + n / (2 * m : ℕ) % 2) / (2 * m : ℕ) := by
  have hfloor : ⌊(n : ℝ) / (2 * m : ℕ)⌋ = n / (2 * m : ℕ) := by
    rw [Int.floor_div_natCast, Int.floor_intCast]
  have hpos : (0 : ℤ) < (2 * m : ℕ) := by exact_mod_cast Nat.mul_pos two_pos hm
  have hsplit := Int.ediv_mul_add_emod n (2 * m : ℕ)
  have hlow := Int.emod_nonneg n hpos.ne'
  have hhigh := Int.emod_lt_of_pos n hpos
  unfold halfEven
  rw [hfloor]
  generalize n / ((2 * m : ℕ) : ℤ) = q at *
  generalize n % ((2 * m : ℕ) : ℤ) = r at *
  obtain rfl : n = q * (2 * m : ℕ) + r := hsplit.symm
  have hrest : ((q * (2 * m : ℕ) + r : ℤ) : ℝ) / (2 * m : ℕ) - q = r / (2 * m : ℕ) := by
    have hreal : ((2 * m : ℕ) : ℝ) ≠ 0 := by exact_mod_cast hpos.ne'
    push_cast at hreal ⊢
    field_simp
    ring
  have hshift : ∀ d : ℤ, (q * (2 * m : ℕ) + r + d) / (2 * m : ℕ) = q + (r + d) / (2 * m : ℕ) := by
    intro d
    rw [add_assoc, add_comm, Int.add_mul_ediv_right _ _ hpos.ne', add_comm]
  rw [hrest, add_sub_assoc, add_assoc, hshift]
  simp only [div_lt_half_iff r hm, half_lt_div_iff r hm]
  split_ifs with hbelow habove
  · rw [Int.ediv_eq_zero_of_lt (by omega) (by omega), add_zero]
  · have hone : (r + (m - 1 + q % 2)) / (2 * m : ℕ) = 1 := by
      rw [Int.ediv_eq_iff_of_pos hpos]
      omega
    rw [hone]
  · have htie : (r + (m - 1 + q % 2)) / (2 * m : ℕ) = q % 2 := by
      rw [Int.ediv_eq_iff_of_pos hpos]
      rcases Int.emod_two_eq_zero_or_one q with heven | hodd
      · rw [heven]
        omega
      · rw [hodd]
        omega
    rw [htie]

theorem halfEven_div_two (n : ℤ) : halfEven ((n : ℝ) / 2) = (n + n / 2 % 2) / 2 := by
  have hdiv := halfEven_div n (m := 1) one_pos
  norm_num at hdiv
  exact hdiv

theorem halfEven_div_four (n : ℤ) : halfEven ((n : ℝ) / 4) = (n + 1 + n / 4 % 2) / 4 := by
  have hdiv := halfEven_div n (m := 2) two_pos
  norm_num at hdiv
  rw [hdiv]
  omega

theorem halfEven_div_eight (n : ℤ) : halfEven ((n : ℝ) / 8) = (n + 3 + n / 8 % 2) / 8 := by
  have hdiv := halfEven_div n (m := 4) (by norm_num)
  norm_num at hdiv
  rw [hdiv]
  omega

/-- The least unit. -/
noncomputable def finest : ℝ :=
  twoPow (-1074)

theorem exists_finest {d : ℝ} (hd : IsDouble d) : ∃ k : ℤ, d = k * finest := by
  obtain ⟨m, e, -, he, rfl⟩ := hd
  exact exists_intCast_mul_zpow he m

theorem two_mul_finest : (2 : ℝ) ^ (-1073 : ℤ) = 2 * finest := by
  rw [finest, twoPow, show (-1073 : ℤ) = 1 + -1074 by norm_num, zpow_two_add, zpow_one]

/-- Small numbers are rounded to multiples of the least unit. -/
theorem nearest_eq_finest {r : ℝ} (hr : |r| < 2 ^ 53 * finest) :
    nearest r = halfEven (r / finest) * finest := by
  have hplace : place r = -1074 := by
    refine le_antisymm (place_le le_rfl ?_) (le_place r)
    rw [zpow_two_add]
    exact_mod_cast hr
  rw [nearest, hplace]
  rfl

/-! ## A double from its quarters -/

theorem le_ulp {r : ℝ} (hplace : -1074 < place r) : 2 ^ 52 * ulp r ≤ |r| := by
  have hlarge := zpow_place_le_abs hplace
  rw [zpow_two_add] at hlarge
  exact_mod_cast hlarge

/-- A quarter is exact unless it is below the least unit. -/
theorem isDouble_quarter {r : ℝ} (hr : IsDouble r) (hplace : -1072 ≤ place r) :
    IsDouble (r * (1 / 4)) := by
  obtain ⟨k, hk, hbits, -⟩ := exists_ulps hr
  have hdouble := isDouble_mul_zpow (e := place r - 2) hbits.le (by omega)
  convert hdouble using 1
  nth_rewrite 1 [hk]
  rw [zpow_sub₀ two_ne_zero, ulp_eq]
  norm_num
  ring

/-- Half a unit off at most, and that only next to an even number, the sum is rounded back. -/
theorem nearest_of_quarters {k t e : ℤ} (he : -1074 ≤ e) (hk : IsDouble (k * 2 ^ e))
    (hlow : 2 ^ 52 < |k|) (hhigh : |k| < 2 ^ 54) (ht : 4 * k - 2 ≤ t ∧ t ≤ 4 * k + 2)
    (htie : t = 4 * k - 2 ∨ t = 4 * k + 2 → k % 2 = 0) :
    nearest (t / 4 * 2 ^ e) = k * 2 ^ e := by
  have hunit := zpow_two_pos e
  have habs : |(t : ℝ) / 4 * 2 ^ e| = |t| / 4 * 2 ^ e := by
    rw [abs_mul, abs_of_pos hunit, abs_div, Int.cast_abs]
    norm_num
  rw [lt_abs] at hlow
  rw [abs_lt] at hhigh
  have htlow : 2 ^ 54 ≤ |t| := by
    rw [le_abs]
    omega
  have hleast : (2 : ℝ) ^ 54 ≤ |t| := by exact_mod_cast htlow
  rcases lt_or_ge |t| (2 ^ 55) with hfine | hcoarse
  · have hmost : ((|t| : ℤ) : ℝ) < 2 ^ 55 := by exact_mod_cast hfine
    have hrounded : halfEven ((t : ℝ) / 4) = k := by
      rw [halfEven_div_four]
      omega
    rw [nearest_eq_halfEven he, mul_div_cancel_right₀ _ hunit.ne', hrounded]
    · rw [habs]
      exact mul_le_mul_of_nonneg_right (by linarith) hunit.le
    · rw [habs]
      exact mul_lt_mul_of_pos_right (by linarith) hunit
  · -- From here on the doubles are multiples of two units, and so `k` is even.
    have hstep : (2 : ℝ) ^ (e + 1) = 2 * 2 ^ e := by
      rw [zpow_two_add, zpow_one, mul_comm]
    have htbits : |t| < 2 ^ 56 := by
      rw [abs_lt]
      omega
    have hmost : ((|t| : ℤ) : ℝ) < 2 ^ 56 := by exact_mod_cast htbits
    have hsecond : (2 : ℝ) ^ 55 ≤ (|t| : ℤ) := by exact_mod_cast hcoarse
    have hklarge : 2 ^ 53 ≤ |k| := by
      rw [le_abs] at hcoarse ⊢
      omega
    obtain ⟨j, hj⟩ := exists_intCast_mul_of_isDouble hk (d := e + 1) (by
      rw [abs_mul, abs_of_pos hunit, zpow_two_add, hstep, ← mul_assoc]
      refine mul_le_mul_of_nonneg_right ?_ hunit.le
      have hcast : (2 : ℝ) ^ 53 ≤ (|k| : ℤ) := by exact_mod_cast hklarge
      push_cast at hcast
      norm_num
      linarith)
    have heven : k = 2 * j := by
      rw [hstep, ← mul_assoc] at hj
      have hcast := mul_right_cancel₀ hunit.ne' hj
      exact_mod_cast hcast.trans (mul_comm _ _)
    have hquotient : (t : ℝ) / 4 * 2 ^ e / 2 ^ (e + 1) = t / 8 := by
      rw [hstep]
      field_simp
      ring
    have hrounded : halfEven ((t : ℝ) / 8) = j := by
      rw [halfEven_div_eight]
      omega
    rw [nearest_eq_halfEven (e := e + 1) (by omega), hquotient, hrounded, hj]
    · rw [habs, hstep, ← mul_assoc]
      exact mul_le_mul_of_nonneg_right (by linarith) hunit.le
    · rw [habs, hstep, ← mul_assoc]
      exact mul_lt_mul_of_pos_right (by linarith) hunit

/-- The quarters of a multiple of the least unit, where they have this unit too. -/
theorem nearest_quarters_of_finest {x : ℝ} {n : ℤ} (hx : x = n * finest)
    (hsmall : |x * (3 / 4)| < 2 ^ 53 * finest) :
    nearest (x * (3 / 4)) = ((3 * n + 1 + 3 * n / 4 % 2) / 4 : ℤ) * finest ∧
      nearest (x * (1 / 4)) = ((n + 1 + n / 4 % 2) / 4 : ℤ) * finest := by
  have hunit : 0 < finest := zpow_two_pos _
  have hquarter : |x * (1 / 4)| < 2 ^ 53 * finest := by
    rw [abs_mul] at hsmall ⊢
    norm_num at hsmall ⊢
    linarith [abs_nonneg x]
  have hlarge : x * (3 / 4) / finest = (3 * n : ℤ) / 4 := by
    rw [hx, div_eq_iff hunit.ne']
    push_cast
    ring
  have hless : x * (1 / 4) / finest = (n : ℤ) / 4 := by
    rw [hx, div_eq_iff hunit.ne']
    ring
  rw [nearest_eq_finest hsmall, nearest_eq_finest hquarter, hlarge, hless, halfEven_div_four,
    halfEven_div_four]
  exact ⟨rfl, rfl⟩

theorem mod_eight (n : ℤ) : n % 8 = 0 ∨ n % 8 = 1 ∨ n % 8 = 2 ∨ n % 8 = 3 ∨ n % 8 = 4 ∨
    n % 8 = 5 ∨ n % 8 = 6 ∨ n % 8 = 7 := by
  omega

/-- Where the quarters have the least unit, their sum is exact. -/
theorem quarters_add_of_finest {b : ℝ} (hb : IsDouble b) (hsmall : |b * (3 / 4)| < 2 ^ 53 * finest) :
    nearest (b * (3 / 4)) + nearest (b * (1 / 4)) = b := by
  obtain ⟨n, hn⟩ := exists_finest hb
  obtain ⟨hlarge, hless⟩ := nearest_quarters_of_finest hn hsmall
  have hsum : (3 * n + 1 + 3 * n / 4 % 2) / 4 + (n + 1 + n / 4 % 2) / 4 = n := by
    rcases mod_eight n with h | h | h | h | h | h | h | h <;> omega
  rw [hlarge, hless, ← add_mul, ← Int.cast_add, hsum, hn]

/-- In quarters of a unit the sum is off by two at most. The smaller part is rounded only if its
places go below the least unit. -/
theorem exists_quarters_add {k e : ℤ} (he : -1074 < e) (hk : IsDouble (k * 2 ^ e))
    (hlow : 2 ^ 52 < |k|) (hhigh : |k| < 2 ^ 54) :
    ∃ t : ℤ, halfEven ((3 * k : ℤ) / 4) * 2 ^ e + nearest (k * 2 ^ e * (1 / 4)) = t / 4 * 2 ^ e ∧
      4 * k - 2 ≤ t ∧ t ≤ 4 * k + 2 ∧ (t = 4 * k - 2 ∨ t = 4 * k + 2 → k % 2 = 0) := by
  have hunit := zpow_two_pos e
  have habs : |(k : ℝ) * 2 ^ e| = (|k| : ℤ) * 2 ^ e := by
    rw [abs_mul, abs_of_pos hunit, Int.cast_abs]
  rcases (show -1072 ≤ e ∨ e = -1073 by omega) with hnormal | hedge
  · have hplace : e ≤ place (k * 2 ^ e) := by
      refine le_place_of_zpow_le ?_
      rw [habs, zpow_two_add]
      exact mul_le_mul_of_nonneg_right (by exact_mod_cast hlow.le) hunit.le
    refine ⟨4 * ((3 * k + 1 + 3 * k / 4 % 2) / 4) + k, ?_, ?_⟩
    · rw [nearest_of_isDouble (isDouble_quarter hk (hnormal.trans hplace)), halfEven_div_four]
      push_cast
      ring
    · rcases mod_eight k with h | h | h | h | h | h | h | h <;> omega
  · have hfinest : (2 : ℝ) ^ e = 2 * finest := by rw [hedge, two_mul_finest]
    have hpos : 0 < finest := zpow_two_pos _
    have hsmall : |(k : ℝ) * 2 ^ e * (1 / 4)| < 2 ^ 53 * finest := by
      have hbits : ((|k| : ℤ) : ℝ) < 2 ^ 54 := by exact_mod_cast hhigh
      rw [abs_mul, habs, hfinest, abs_of_pos (by norm_num : (0 : ℝ) < 1 / 4)]
      nlinarith
    have hhalf : (k : ℝ) * 2 ^ e * (1 / 4) / finest = k / 2 := by
      rw [hfinest, div_eq_iff hpos.ne']
      ring
    refine ⟨4 * ((3 * k + 1 + 3 * k / 4 % 2) / 4) + 2 * ((k + k / 2 % 2) / 2), ?_, ?_⟩
    · rw [nearest_eq_finest hsmall, hhalf, halfEven_div_four, halfEven_div_two, hfinest]
      push_cast
      ring
    · rcases mod_eight k with h | h | h | h | h | h | h | h <;> omega

/-- The rounded quarters of a double are complements. -/
theorem mixed_quarters_self {b : ℝ} (hb : IsDouble b) : mixed (3 / 4) (1 / 4) b b = b := by
  rcases (le_place (b * (3 / 4))).lt_or_eq with hplace | hleast
  · have hlow := le_ulp hplace
    have hhigh := abs_lt_ulp (b * (3 / 4))
    obtain ⟨e, he⟩ : ∃ e, place (b * (3 / 4)) = e := ⟨_, rfl⟩
    rw [he] at hplace
    rw [ulp_eq, he] at hlow hhigh
    have hunit := zpow_two_pos e
    have habs : |b * (3 / 4)| = |b| * (3 / 4) := by
      rw [abs_mul]
      norm_num
    rw [habs] at hlow hhigh
    obtain ⟨k, hk⟩ := exists_intCast_mul_of_isDouble hb (d := e) (by
      rw [zpow_two_add]
      norm_num at hlow ⊢
      linarith)
    have hkabs : |b| = |k| * 2 ^ e := by
      rw [hk, abs_mul, abs_of_pos hunit, Int.cast_abs]
    rw [hkabs] at hlow hhigh
    have hklow : 2 ^ 52 < |k| := by
      have hcast : (2 : ℝ) ^ 52 < (|k| : ℤ) := by
        have hle : (2 : ℝ) ^ 52 ≤ (|k| : ℤ) * (3 / 4) := by
          refine le_of_mul_le_mul_right ?_ hunit
          linarith
        linarith
      exact_mod_cast hcast
    have hkhigh : |k| < 2 ^ 54 := by
      have hcast : ((|k| : ℤ) : ℝ) < 2 ^ 54 := by
        have hlt : ((|k| : ℤ) : ℝ) * (3 / 4) < 2 ^ 53 := by
          refine lt_of_mul_lt_mul_right ?_ hunit.le
          linarith
        linarith
      exact_mod_cast hcast
    obtain ⟨t, ht, htlow, hthigh, htie⟩ := exists_quarters_add hplace (hk ▸ hb) hklow hkhigh
    rw [← hk] at ht
    have hlarge : nearest (b * (3 / 4)) = halfEven ((3 * k : ℤ) / 4) * 2 ^ e := by
      rw [nearest, he, hk]
      congr 3
      rw [div_eq_iff hunit.ne']
      push_cast
      ring
    rw [mixed, hlarge, ht]
    have hrounded := nearest_of_quarters hplace.le (hk ▸ hb) hklow hkhigh ⟨htlow, hthigh⟩ htie
    rw [hrounded, hk]
  · have hsmall := abs_lt_ulp (b * (3 / 4))
    rw [ulp_eq, ← hleast] at hsmall
    rw [mixed, quarters_add_of_finest hb hsmall, nearest_of_isDouble hb]

/-- Means with quarters as weights stay between the two numbers. -/
theorem mixed_quarters_between {a b : ℝ} (ha : IsDouble a) (hb : IsDouble b) (hab : a ≤ b) :
    (a ≤ mixed (3 / 4) (1 / 4) a b ∧ mixed (3 / 4) (1 / 4) a b ≤ b) ∧
      a ≤ mixed (1 / 4) (3 / 4) a b ∧ mixed (1 / 4) (3 / 4) a b ≤ b := by
  have hlarge : (0 : ℝ) ≤ 3 / 4 := by norm_num
  have hsmall : (0 : ℝ) ≤ 1 / 4 := by norm_num
  have hlow := mixed_quarters_self ha
  have hhigh := mixed_quarters_self hb
  rw [mixed_swap (1 / 4)]
  refine ⟨⟨?_, ?_⟩, ?_, ?_⟩
  · exact hlow.ge.trans (mixed_mono hlarge hsmall le_rfl hab)
  · exact (mixed_mono hlarge hsmall hab le_rfl).trans hhigh.le
  · exact hlow.ge.trans (mixed_mono hlarge hsmall hab le_rfl)
  · exact (mixed_mono hlarge hsmall le_rfl hab).trans hhigh.le

/-! ## Means of two doubles -/

/-- How far the rounded quarters of a number are apart. The mean of `a` and `b` nearer to `a` is at
most the one nearer to `b` if this is so of `a` and `b`. -/
noncomputable def reach (x : ℝ) : ℝ :=
  nearest (x * (3 / 4)) - nearest (x * (1 / 4))

theorem mixed_quarters_le_of_reach {a b : ℝ} (hreach : reach a ≤ reach b) :
    mixed (3 / 4) (1 / 4) a b ≤ mixed (1 / 4) (3 / 4) a b := by
  unfold reach at hreach
  exact nearest_mono (by linarith)

/-- Half a number in the least unit, from rounded quarters. -/
def roundedHalf (n : ℤ) : ℤ :=
  (3 * n + 1 + 3 * n / 4 % 2) / 4 - (n + 1 + n / 4 % 2) / 4

theorem roundedHalf_bounds (n : ℤ) : n - 2 ≤ 2 * roundedHalf n ∧ 2 * roundedHalf n ≤ n + 2 := by
  unfold roundedHalf
  rcases mod_eight n with h | h | h | h | h | h | h | h <;> omega

theorem roundedHalf_step (n : ℤ) :
    roundedHalf n ≤ roundedHalf (n + 2) ∧ roundedHalf n ≤ roundedHalf (n + 3) := by
  unfold roundedHalf
  rcases mod_eight n with h | h | h | h | h | h | h | h <;> omega

theorem roundedHalf_le {m n : ℤ} (hmn : m + 2 ≤ n) : roundedHalf m ≤ roundedHalf n := by
  rcases (by omega : n = m + 2 ∨ n = m + 3 ∨ m + 4 ≤ n) with rfl | rfl | hfar
  · exact (roundedHalf_step m).1
  · exact (roundedHalf_step m).2
  · have hm := roundedHalf_bounds m
    have hn := roundedHalf_bounds n
    omega

theorem reach_of_finest {x : ℝ} {n : ℤ} (hx : x = n * finest)
    (hsmall : |x * (3 / 4)| < 2 ^ 53 * finest) : reach x = roundedHalf n * finest := by
  obtain ⟨hlarge, hless⟩ := nearest_quarters_of_finest hx hsmall
  rw [reach, hlarge, hless, ← sub_mul, ← Int.cast_sub]
  rfl

/-- Next to the least unit three quarters have one unit more than a quarter. -/
theorem reach_of_edge {x : ℝ} {n : ℤ} (hx : x = n * (2 * finest))
    (hlow : 2 ^ 53 * finest ≤ |x * (3 / 4)|) (hhigh : |x * (3 / 4)| < 2 ^ 54 * finest) :
    ∃ d : ℤ, reach x = d * finest ∧ n - 1 ≤ d ∧ d ≤ n + 1 := by
  have hunit : 0 < finest := zpow_two_pos _
  have hquarter : |x * (1 / 4)| < 2 ^ 53 * finest := by
    rw [abs_mul] at hhigh ⊢
    norm_num at hhigh ⊢
    linarith
  have hrounded := nearest_eq_halfEven (r := x * (3 / 4)) (e := -1073) (by norm_num)
    (by rw [two_mul_finest]; linarith) (by rw [two_mul_finest]; linarith)
  rw [two_mul_finest] at hrounded
  have hlarge : x * (3 / 4) / (2 * finest) = (3 * n : ℤ) / 4 := by
    rw [hx, div_eq_iff (by linarith)]
    push_cast
    ring
  have hless : x * (1 / 4) / finest = (n : ℤ) / 2 := by
    rw [hx, div_eq_iff hunit.ne']
    ring
  refine ⟨2 * ((3 * n + 1 + 3 * n / 4 % 2) / 4) - (n + n / 2 % 2) / 2, ?_, ?_⟩
  · rw [reach, nearest_eq_finest hquarter, hrounded, hlarge, hless, halfEven_div_four,
      halfEven_div_two]
    push_cast
    ring
  · rcases mod_eight n with h | h | h | h | h | h | h | h <;> omega

section Reach

variable {a b : ℝ} (hpos : 0 < a) (hab : a < b)
include hpos hab

theorem abs_three_quarters_le : |a * (3 / 4)| ≤ |b * (3 / 4)| := by
  rw [abs_of_nonneg (by linarith), abs_of_nonneg (by linarith)]
  linarith

/-- Four roundings cost less than one and a half units of the largest of the quarters. -/
theorem reach_le_of_far (hplace : -1074 < place (b * (3 / 4)))
    (hfar : a + 3 * ulp (b * (3 / 4)) ≤ b) : reach a ≤ reach b := by
  have hlarge : ∀ x, 0 ≤ x → x ≤ b →
      |nearest (x * (3 / 4)) - x * (3 / 4)| ≤ ulp (b * (3 / 4)) / 2 := by
    intro x hx hxb
    refine abs_nearest_sub_le_half_ulp ?_
    rw [abs_of_nonneg (by positivity), abs_of_nonneg (by linarith)]
    linarith
  have hless : ∀ x, 0 ≤ x → x ≤ b →
      |nearest (x * (1 / 4)) - x * (1 / 4)| ≤ ulp (b * (3 / 4)) / 4 := by
    intro x hx hxb
    have hbits := abs_lt_ulp (b * (3 / 4))
    rw [abs_of_nonneg (by linarith)] at hbits
    refine abs_nearest_sub_le_quarter_ulp hplace ?_
    rw [abs_of_nonneg (by positivity)]
    linarith
  have hb := hpos.le.trans hab.le
  have h1 := abs_le.mp (hlarge a hpos.le hab.le)
  have h2 := abs_le.mp (hlarge b hb le_rfl)
  have h3 := abs_le.mp (hless a hpos.le hab.le)
  have h4 := abs_le.mp (hless b hb le_rfl)
  unfold reach
  linarith

/-- With exact quarters only two of them are rounded. -/
theorem reach_le_of_exact (ha : IsDouble (a * (1 / 4))) (hb : IsDouble (b * (1 / 4)))
    (hfar : a + 2 * ulp (b * (3 / 4)) ≤ b) : reach a ≤ reach b := by
  have hfirst := abs_le.mp (abs_nearest_sub_le_half_ulp (abs_three_quarters_le hpos hab))
  have hsecond := abs_le.mp (abs_nearest_sub_le_half_ulp (le_refl |b * (3 / 4)|))
  unfold reach
  rw [nearest_of_isDouble ha, nearest_of_isDouble hb]
  linarith

end Reach

section Means

variable {a b c : ℝ} (ha : IsDouble a) (hb : IsDouble b) (hc : IsDouble c)
  (hac : a < c) (hcb : c < b)
include ha hb hc hac hcb

/-- Numbers that are multiples of one unit are two units apart if they are not neighbours. -/
theorem reach_le_of_close (hplace : -1074 < place (b * (3 / 4)))
    (hclose : 2 ^ 52 * ulp (b * (3 / 4)) ≤ a) : reach a ≤ reach b := by
  have hstep := ulp_pos (b * (3 / 4))
  have hpos : 0 < a := by linarith
  have hab := hac.trans hcb
  have hlarge := le_ulp hplace
  have hbits := abs_lt_ulp (b * (3 / 4))
  have hgrid : ∀ {x}, IsDouble x → a ≤ x →
      place (b * (3 / 4)) ≤ place x ∧ ∃ k : ℤ, x = k * ulp (b * (3 / 4)) := by
    intro x hx hax
    have hbound : 2 ^ (52 + place (b * (3 / 4))) ≤ |x| := by
      rw [zpow_two_add, abs_of_nonneg (by linarith), ← ulp_eq]
      norm_num at hclose ⊢
      linarith
    exact ⟨le_place_of_zpow_le hbound, exists_intCast_mul_of_isDouble hx hbound⟩
  obtain ⟨haplace, i, hi⟩ := hgrid ha le_rfl
  obtain ⟨-, j, hj⟩ := hgrid hc hac.le
  obtain ⟨hbplace, k, hk⟩ := hgrid hb hab.le
  have hij : i < j := by
    have hlt := lt_of_mul_lt_mul_right (hi.symm.trans_lt (hac.trans_eq hj)) hstep.le
    exact_mod_cast hlt
  have hjk : j < k := by
    have hlt := lt_of_mul_lt_mul_right (hj.symm.trans_lt (hcb.trans_eq hk)) hstep.le
    exact_mod_cast hlt
  have hik : (i : ℝ) + 2 ≤ k := by exact_mod_cast (by omega : i + 2 ≤ k)
  rcases (by omega : -1072 ≤ place (b * (3 / 4)) ∨ place (b * (3 / 4)) = -1073) with
    hnormal | hedge
  · refine reach_le_of_exact hpos hab (isDouble_quarter ha (hnormal.trans haplace))
      (isDouble_quarter hb (hnormal.trans hbplace)) ?_
    calc
      a + 2 * ulp (b * (3 / 4)) = (i + 2) * ulp (b * (3 / 4)) := by
        nth_rewrite 1 [hi]
        ring
      _ ≤ k * ulp (b * (3 / 4)) := mul_le_mul_of_nonneg_right hik hstep.le
      _ = b := hk.symm
  · -- A quarter may be finer than the least unit, while three quarters of `b` are not.
    have hunit : 0 < finest := zpow_two_pos _
    have hdouble : ulp (b * (3 / 4)) = 2 * finest := by
      rw [ulp_eq, hedge, two_mul_finest]
    rw [hdouble] at hlarge hbits hi hk
    obtain ⟨d, hd, hdlow, -⟩ := reach_of_edge hk (by linarith) (by linarith)
    have hsmaller := abs_three_quarters_le hpos hab
    obtain ⟨n, hn, hnhigh⟩ : ∃ n : ℤ, reach a = n * finest ∧ n ≤ i + 1 := by
      rcases lt_or_ge |a * (3 / 4)| (2 ^ 53 * finest) with hfine | hcoarse
      · have hbounds := roundedHalf_bounds (2 * i)
        refine ⟨roundedHalf (2 * i), reach_of_finest ?_ hfine, by omega⟩
        rw [hi]
        push_cast
        ring
      · obtain ⟨n, hn, -, hnhigh⟩ := reach_of_edge hi hcoarse (by linarith)
        exact ⟨n, hn, hnhigh⟩
    rw [hn, hd]
    refine mul_le_mul_of_nonneg_right ?_ hunit.le
    exact_mod_cast (by omega : n ≤ d)

/-- Positive numbers that are not neighbours are as far apart as the roundings are large. -/
theorem reach_le (hpos : 0 < a) : reach a ≤ reach b := by
  have hunit : 0 < finest := zpow_two_pos _
  have hab := hac.trans hcb
  have hsmaller := abs_three_quarters_le hpos hab
  rcases (le_place (b * (3 / 4))).lt_or_eq with hplace | hleast
  · have hlarge := le_ulp hplace
    rw [abs_of_nonneg (by linarith)] at hlarge
    have hstep := ulp_pos (b * (3 / 4))
    rcases le_or_gt (2 ^ 52 * ulp (b * (3 / 4))) a with hclose | hfar
    · exact reach_le_of_close ha hb hc hac hcb hplace hclose
    · exact reach_le_of_far hpos hab hplace (by linarith)
  · -- In the least unit all three numbers are integers.
    have hsmall := abs_lt_ulp (b * (3 / 4))
    rw [ulp_eq, ← hleast] at hsmall
    obtain ⟨i, hi⟩ := exists_finest ha
    obtain ⟨j, hj⟩ := exists_finest hc
    obtain ⟨k, hk⟩ := exists_finest hb
    rw [hi, hj] at hac
    rw [hj, hk] at hcb
    have hij : i < j := by exact_mod_cast lt_of_mul_lt_mul_right hac hunit.le
    have hjk : j < k := by exact_mod_cast lt_of_mul_lt_mul_right hcb hunit.le
    rw [reach_of_finest hi (hsmaller.trans_lt hsmall), reach_of_finest hk hsmall]
    refine mul_le_mul_of_nonneg_right ?_ hunit.le
    exact_mod_cast roundedHalf_le (by omega : i + 2 ≤ k)

/-- Quarters of two doubles that are not neighbours are in order. -/
theorem mixed_quarters_le : mixed (3 / 4) (1 / 4) a b ≤ mixed (1 / 4) (3 / 4) a b := by
  rcases lt_or_ge 0 a with hpos | hneg
  · exact mixed_quarters_le_of_reach (reach_le ha hb hc hac hcb hpos)
  · rcases lt_or_ge b 0 with hbneg | hbpos
    · -- Negative numbers are mixed as their negations are, in the other order.
      have hmirror := mixed_quarters_le_of_reach (reach_le hb.neg ha.neg hc.neg (neg_lt_neg hcb)
        (neg_lt_neg hac) (neg_pos.mpr hbneg))
      rw [mixed_neg, mixed_neg, neg_le_neg_iff] at hmirror
      rwa [mixed_swap _ _ a b, mixed_swap (1 / 4) (3 / 4) a b]
    · have hfirst := nearest_mono (by linarith : a * (3 / 4) ≤ a * (1 / 4))
      have hsecond := nearest_mono (by linarith : b * (1 / 4) ≤ b * (3 / 4))
      exact nearest_mono (add_le_add hfirst hsecond)

end Means

end ChartCompiler.Double
