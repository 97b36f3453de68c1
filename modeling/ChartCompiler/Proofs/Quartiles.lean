import ChartCompiler.Proofs.Indices

/-!
# Quartiles of finite values

The rank of a quartile is a whole number of quarters, whatever the number of values: small
products are exact, and large ones are rounded to halves or to whole numbers. So the weights
of the two neighbours are exact quarters, and the weighted mean of two finite values cannot
overflow. A list of `4 k + 1` values has its quartiles among them.
-/

namespace ChartCompiler

open Double Statistics

/-! ## Ranks in quarters -/

namespace Double

/-- Rounding keeps multiples of a power of two. -/
theorem exists_nearest_eq_mul {e : ℤ} (he : -1074 ≤ e) (k : ℤ) :
    ∃ n : ℤ, nearest (k * 2 ^ e) = n * 2 ^ e := by
  rcases le_or_gt |k| (2 ^ 53) with hbits | hlarge
  · exact ⟨k, nearest_of_isDouble (isDouble_mul_zpow hbits he)⟩
  · have hbound : (2 : ℝ) ^ (52 + e) ≤ |(k : ℝ) * 2 ^ e| := by
      rw [abs_mul, abs_of_pos (zpow_two_pos e), zpow_two_add]
      refine mul_le_mul_of_nonneg_right ?_ (zpow_two_pos e).le
      exact_mod_cast (by omega : (2 : ℤ) ^ 52 ≤ |k|)
    have hdouble : IsDouble (2 ^ (52 + e)) := isDouble_zpow (by omega)
    refine exists_intCast_mul_of_isDouble (isDouble_nearest _) ?_
    rcases le_abs.mp hbound with hpos | hneg
    · exact (le_nearest hdouble hpos).trans (le_abs_self _)
    · have hnearest := le_nearest hdouble hneg
      rw [nearest_neg] at hnearest
      exact hnearest.trans (neg_le_abs _)

end Double

namespace Statistics

section Rank

variable {p : Float} (hp : IsQuartile p) {m : ℕ} (hm : m < 2 ^ 63)
include hp hm

theorem quartileRank_bounds : (quartileRank p m).isFinite = true ∧ 0 ≤ real (quartileRank p m) ∧
    real (quartileRank p m) ≤ 2 ^ (63 : ℤ) := by
  have hlimit : (2 : ℝ) ^ (63 : ℤ) < limit := zpow_lt_limit (by norm_num)
  have hbig : IsDouble (2 ^ (63 : ℤ)) := isDouble_zpow (by norm_num)
  obtain ⟨hpart, hplow, hphigh⟩ := hp.share
  obtain ⟨hcount, hclow, hchigh⟩ := (rounds_ofNat m).between isDouble_zero hbig
    (neg_neg_of_pos limit_pos) hlimit (Nat.cast_nonneg _) (by exact_mod_cast hm.le)
  exact (rounds_mul hpart hcount).between isDouble_zero hbig (neg_neg_of_pos limit_pos) hlimit
    (mul_nonneg hplow hclow)
    ((mul_le_of_le_one_left hclow (by linarith)).trans hchigh)

/-- A rank is rounded twice: the count first, then its share. -/
theorem real_quartileRank :
    ∃ k : ℕ, 0 < k ∧ real (quartileRank p m) = nearest (k / 4 * nearest m) := by
  obtain ⟨hfinite, k, hpos, hle, hshare⟩ := hp.real_clamp
  have hbig : IsDouble (2 ^ (63 : ℤ)) := isDouble_zpow (by norm_num)
  have hlimit : (2 : ℝ) ^ (63 : ℤ) < limit := zpow_lt_limit (by norm_num)
  have hcount : |(m : ℝ)| ≤ 2 ^ (63 : ℤ) := by
    rw [Nat.abs_cast]
    exact_mod_cast hm.le
  have hnearest : |nearest m| ≤ 2 ^ (63 : ℤ) := abs_nearest_le hbig hcount
  have hproduct : |(k : ℝ) / 4 * nearest m| ≤ 2 ^ (63 : ℤ) := by
    have hk : (k : ℝ) ≤ 4 := by exact_mod_cast hle.le
    rw [abs_mul, abs_of_nonneg (by positivity)]
    exact (mul_le_of_le_one_left (abs_nonneg _) (by linarith)).trans hnearest
  have hrounds := rounds_mul hfinite ((rounds_ofNat m).isFinite (hnearest.trans_lt hlimit))
  rw [hshare, (rounds_ofNat m).real_eq (hnearest.trans_lt hlimit)] at hrounds
  exact ⟨k, hpos, hrounds.real_eq ((abs_nearest_le hbig hproduct).trans_lt hlimit)⟩

/-- Counts are rounded to whole numbers, and their quarters to quarters. -/
theorem exists_quarters : ∃ n : ℕ, real (quartileRank p m) = n / 4 := by
  obtain ⟨k, -, hreal⟩ := real_quartileRank hp hm
  obtain ⟨-, hlow, -⟩ := quartileRank_bounds hp hm
  obtain ⟨count, hcount⟩ := exists_nearest_eq_mul (e := 0) (by norm_num) m
  obtain ⟨n, hn⟩ := exists_nearest_eq_mul (e := -2) (by norm_num) (k * count)
  have hproduct : (k : ℝ) / 4 * nearest m = ↑(k * count) * 2 ^ (-2 : ℤ) := by
    rw [zpow_zero, mul_one, mul_one, Int.cast_natCast] at hcount
    rw [hcount]
    push_cast
    norm_num
    ring
  rw [hreal, hproduct, hn] at hlow ⊢
  have hpos : 0 ≤ n := by
    exact_mod_cast nonneg_of_mul_nonneg_left hlow (zpow_two_pos (-2))
  lift n to ℕ using hpos
  exact ⟨n, by push_cast; norm_num; ring⟩

/-- Quarters of a multiple of four are whole numbers, also where the count is rounded. -/
theorem exists_whole (hfour : 4 ∣ m) : ∃ n : ℤ, real (quartileRank p m) = n := by
  obtain ⟨k, hk, hreal⟩ := real_quartileRank hp hm
  rw [hreal]
  rcases le_or_gt m (2 ^ 54) with hsmall | hlarge
  · obtain ⟨q, rfl⟩ := hfour
    have hdouble : IsDouble (4 * q : ℕ) := by
      have hquarters : ((4 * q : ℕ) : ℝ) = (q : ℤ) * 2 ^ (2 : ℤ) := by
        push_cast
        norm_num
        ring
      rw [hquarters]
      exact isDouble_mul_zpow (by rw [Nat.abs_cast]; norm_cast; omega) (by norm_num)
    have hproduct : (k : ℝ) / 4 * (4 * q : ℕ) = ((k * q : ℕ) : ℤ) * 2 ^ (0 : ℤ) := by
      push_cast
      norm_num
      ring
    obtain ⟨n, hn⟩ := exists_nearest_eq_mul (e := 0) (by norm_num) (k * q : ℕ)
    rw [nearest_of_isDouble hdouble, hproduct, hn]
    exact ⟨n, by norm_num⟩
  · -- A quarter of such a count is at least `2 ^ 52`, where doubles are whole numbers.
    refine exists_intCast_of_isDouble (isDouble_nearest _) (le_trans ?_ (le_abs_self _))
    have hcount : (2 : ℝ) ^ (54 : ℤ) ≤ nearest m :=
      le_nearest (isDouble_zpow (by norm_num)) (by exact_mod_cast hlarge.le)
    have hone : (1 : ℝ) ≤ k := by exact_mod_cast hk
    refine le_nearest (isDouble_zpow (by norm_num)) ?_
    norm_num at hcount ⊢
    nlinarith

end Rank

/-! ## Weighted means -/

/-- Few quarters are not rounded. -/
theorem exact_quarters {x : Float} {k : ℕ} (hx : Rounds x (k / 4)) (hk : k ≤ 4) :
    x.isFinite = true ∧ real x = k / 4 := by
  have hle : (k : ℝ) ≤ 4 := by exact_mod_cast hk
  refine hx.exact ?_ ?_
  · have hdouble := isDouble_mul_zpow (m := k) (e := -2) (by rw [Nat.abs_cast]; norm_cast; omega)
      (by norm_num)
    norm_num at hdouble
    rwa [div_eq_mul_one_div]
  · rw [abs_of_nonneg (by positivity)]
    linarith [one_lt_limit]

/-- The weights of two neighbours, in quarters. -/
structure Weighs (v w : Float) (k : ℕ) : Prop where
  isFinite_lower : v.isFinite = true
  isFinite_upper : w.isFinite = true
  real_lower : real v = 1 - k / 4
  real_upper : real w = k / 4

/-- Between two ranks the weights are exact quarters. -/
theorem exists_weighs {p : Float} (hp : IsQuartile p) {m : ℕ} (hm : m < 2 ^ 63)
    (hbetween : floorNat (quartileRank p m) ≠ ceilNat (quartileRank p m)) :
    ∃ k, 0 < k ∧ k < 4 ∧
      Weighs (1 - (quartileRank p m - Float.ofNat (floorNat (quartileRank p m))))
        (quartileRank p m - Float.ofNat (floorNat (quartileRank p m))) k := by
  obtain ⟨hfinite, hlow, hhigh⟩ := quartileRank_bounds hp hm
  obtain ⟨n, hn⟩ := exists_quarters hp hm
  obtain ⟨hwhole, hfloor⟩ := real_ofNat_floorNat hfinite hlow hhigh
  have hbelow := ofNat_floorNat_lt hbetween
  have hrest : (n : ℝ) / 4 - (n / 4 : ℕ) = (n % 4 : ℕ) / 4 := by
    have hsplit : (n : ℝ) = 4 * (n / 4 : ℕ) + (n % 4 : ℕ) := by
      exact_mod_cast (Nat.div_add_mod n 4).symm
    linarith
  rw [hn, show (n : ℝ) / 4 = (n : ℝ) / (4 : ℕ) by norm_num, Nat.floor_div_eq_div] at hfloor
  have hpos : 0 < n % 4 := by
    rw [real_lt_real_iff hwhole hfinite, hfloor, hn] at hbelow
    have hquarter : (0 : ℝ) < (n % 4 : ℕ) / 4 := by linarith
    exact_mod_cast (div_pos_iff_of_pos_right (by norm_num)).mp hquarter
  have hdifference := rounds_sub hfinite hwhole
  rw [hn, hfloor, hrest] at hdifference
  obtain ⟨hupper, hweight⟩ := exact_quarters hdifference (by omega)
  have hremaining := rounds_sub (x := 1) rfl hupper
  have hcomplement : (1 : ℝ) - (n % 4 : ℕ) / 4 = (4 - n % 4 : ℕ) / 4 := by
    rw [Nat.cast_sub (by omega)]
    push_cast
    ring
  rw [hweight, real_unit, hcomplement] at hremaining
  obtain ⟨hlower, hleft⟩ := exact_quarters hremaining (by omega)
  exact ⟨n % 4, hpos, by omega, hlower, hupper, by rw [hleft, hcomplement], hweight⟩

def largest : Float :=
  .ofBits 0x7FEFFFFFFFFFFFFF

theorem abs_real_le_largest {x : Float} (hx : x.isFinite = true) : |real x| ≤ real largest := by
  have hlargest : parts largest = .finite .positive (2 ^ 53 - 1) 971 (by decide) := rfl
  rw [real_of_parts hlargest]
  rcases parts_cases hx with ⟨s, -, hreal⟩ | ⟨s, m, e, -, -, hreal, hm, -, -, he⟩
  · rw [hreal, abs_zero]
    positivity
  · have hbits : (m : ℝ) ≤ (2 ^ 53 - 1 : ℕ) := by exact_mod_cast (by omega : m ≤ 2 ^ 53 - 1)
    rw [hreal, abs_signed, abs_of_nonneg (magnitude_nonneg m e)]
    exact mul_le_mul hbits (zpow_two_le he) (zpow_two_pos e).le (Nat.cast_nonneg _)

/-- Weighted means are finite if that of the largest double with itself is. -/
theorem isFinite_weightedMean_of_largest {a b v w s t : Float} {k : ℕ} (ha : a.isFinite = true)
    (hb : b.isFinite = true) (hk : k < 4) (hvw : Weighs v w k) (hst : Weighs s t k)
    (hlower : (largest * s).isFinite = true) (hupper : (largest * t).isFinite = true)
    (hmean : (largest * s + largest * t).isFinite = true) : (a * v + b * w).isFinite = true := by
  have hlargest : largest.isFinite = true := rfl
  have hle : (k : ℝ) ≤ 4 := by exact_mod_cast hk.le
  have hshare : |real a * real v| ≤ real largest * real s := by
    have hnonneg : 0 ≤ real v := by
      rw [hvw.real_lower]
      linarith
    rw [hst.real_lower, ← hvw.real_lower, abs_mul, abs_of_nonneg hnonneg]
    exact mul_le_mul_of_nonneg_right (abs_real_le_largest ha) hnonneg
  have hrest : |real b * real w| ≤ real largest * real t := by
    have hnonneg : 0 ≤ real w := by
      rw [hvw.real_upper]
      positivity
    rw [hst.real_upper, ← hvw.real_upper, abs_mul, abs_of_nonneg hnonneg]
    exact mul_le_mul_of_nonneg_right (abs_real_le_largest hb) hnonneg
  obtain ⟨havfinite, hav⟩ := (rounds_mul ha hvw.isFinite_lower).dominated
    (rounds_mul hlargest hst.isFinite_lower) hlower hshare
  obtain ⟨hbwfinite, hbw⟩ := (rounds_mul hb hvw.isFinite_upper).dominated
    (rounds_mul hlargest hst.isFinite_upper) hupper hrest
  exact ((rounds_add havfinite hbwfinite).dominated (rounds_add hlower hupper) hmean
    ((abs_add_le _ _).trans (add_le_add hav hbw))).1

theorem weighs_quarter : Weighs 0.75 0.25 1 := by
  have hlower : parts 0.75 = .finite .positive (3 * 2 ^ 51) (-53) (by decide) := rfl
  have hupper : parts 0.25 = .finite .positive (2 ^ 52) (-54) (by decide) := rfl
  exact ⟨rfl, rfl, by rw [real_of_parts hlower]; norm_num, by rw [real_of_parts hupper]; norm_num⟩

theorem weighs_half : Weighs 0.5 0.5 2 := by
  have hparts : parts 0.5 = .finite .positive (2 ^ 52) (-53) (by decide) := rfl
  exact ⟨rfl, rfl, by rw [real_of_parts hparts]; norm_num, by rw [real_of_parts hparts]; norm_num⟩

theorem weighs_threeQuarters : Weighs 0.25 0.75 3 := by
  have hlower : parts 0.25 = .finite .positive (2 ^ 52) (-54) (by decide) := rfl
  have hupper : parts 0.75 = .finite .positive (3 * 2 ^ 51) (-53) (by decide) := rfl
  exact ⟨rfl, rfl, by rw [real_of_parts hlower]; norm_num, by rw [real_of_parts hupper]; norm_num⟩

/-- No weighted mean of two finite doubles overflows. -/
theorem isFinite_weightedMean {a b v w : Float} {k : ℕ} (ha : a.isFinite = true)
    (hb : b.isFinite = true) (hpos : 0 < k) (hk : k < 4) (hweighs : Weighs v w k) :
    (a * v + b * w).isFinite = true := by
  obtain rfl | rfl | rfl : k = 1 ∨ k = 2 ∨ k = 3 := by omega
  · exact isFinite_weightedMean_of_largest ha hb hk hweighs weighs_quarter rfl rfl rfl
  · exact isFinite_weightedMean_of_largest ha hb hk hweighs weighs_half rfl rfl rfl
  · exact isFinite_weightedMean_of_largest ha hb hk hweighs weighs_threeQuarters rfl rfl rfl

/-! ## Quartiles -/

section Quartile

variable {p : Float} (hp : IsQuartile p) {data : List Float} (hlength : data.length < 2 ^ 63)
include hp hlength

theorem isFinite_quartile (hfinite : ∀ v ∈ data, v.isFinite = true) :
    (percentile data p).isFinite = true := by
  have hget := forall_getD hfinite rfl
  match data with
  | [] => exact (rfl : (0 : Float).isFinite = true)
  | [only] => exact hfinite only List.mem_cons_self
  | first :: second :: rest =>
      rw [percentile_eq_valueAt (by simp)]
      unfold valueAt
      dsimp only
      split_ifs with hwhole
      · exact hget _
      · obtain ⟨k, hpos, hk, hweighs⟩ := exists_weighs hp (by omega) hwhole
        exact isFinite_weightedMean (hget _) (hget _) hpos hk hweighs

/-- Each quartile of `4 k + 1` values is one of them. -/
theorem quartile_eq_getElem (hmod : data.length % 4 = 1) :
    ∃ hindex : ⌊real (quartileRank p (data.length - 1))⌋₊ < data.length,
      percentile data p = data[⌊real (quartileRank p (data.length - 1))⌋₊] := by
  have hm : data.length - 1 < 2 ^ 63 := by omega
  obtain ⟨hfinite, hlow, hhigh⟩ := quartileRank_bounds hp hm
  obtain ⟨hwhole, hreal⟩ := real_ofNat_floorNat hfinite hlow hhigh
  have hfloor := floorNat_eq_floor hfinite hhigh
  have hceil : ceilNat (quartileRank p (data.length - 1)) =
      ⌊real (quartileRank p (data.length - 1))⌋₊ := by
    obtain ⟨n, hn⟩ := exists_whole hp hm (by omega)
    have hpos : 0 ≤ n := by
      rw [hn] at hlow
      exact_mod_cast hlow
    lift n to ℕ using hpos
    have hnat : (⌊real (quartileRank p (data.length - 1))⌋₊ : ℝ) =
        real (quartileRank p (data.length - 1)) := by
      rw [hn, Int.cast_natCast, Nat.floor_natCast]
    unfold ceilNat
    dsimp only
    rw [if_neg, hfloor]
    rw [real_lt_real_iff hwhole hfinite, hreal, hnat]
    exact lt_irrefl _
  have hindex : ⌊real (quartileRank p (data.length - 1))⌋₊ < data.length := by
    obtain ⟨hshare, hsharelow, hsharehigh⟩ := hp.share
    have hle : ceilNat (quartileRank p (data.length - 1)) ≤ data.length - 1 :=
      ceilNat_share_le hshare hsharelow hsharehigh _
    omega
  refine ⟨hindex, ?_⟩
  rcases Nat.lt_or_ge data.length 2 with hone | hmany
  · obtain ⟨only, rfl⟩ := List.length_eq_one_iff.mp (by omega : data.length = 1)
    exact (List.getElem_singleton _).symm
  · rw [percentile_eq_valueAt hmany]
    unfold valueAt
    dsimp only
    rw [hfloor, hceil, if_pos rfl, List.getD_eq_getElem _ _ hindex]

theorem quartile_mem (hmod : data.length % 4 = 1) : percentile data p ∈ data := by
  obtain ⟨hindex, heq⟩ := quartile_eq_getElem hp hlength hmod
  rw [heq]
  exact List.getElem_mem hindex

end Quartile

/-- The rank of the lower quartile comes first. -/
theorem quartileRank_le {m : ℕ} (hm : m < 2 ^ 63) :
    real (quartileRank 0.25 m) ≤ real (quartileRank 0.75 m) := by
  have hlower : parts (clamp 0 1 0.25) = .finite .positive (2 ^ 52) (-54) (by decide) := rfl
  have hupper : parts (clamp 0 1 0.75) = .finite .positive (3 * 2 ^ 51) (-53) (by decide) := rfl
  obtain ⟨hcount, hpos, -⟩ := (rounds_ofNat m).between isDouble_zero
    (isDouble_zpow (e := 63) (by norm_num)) (neg_neg_of_pos limit_pos)
    (zpow_lt_limit (by norm_num)) (Nat.cast_nonneg _) (by exact_mod_cast hm.le)
  obtain ⟨hfinite, -, -⟩ := quartileRank_bounds .upper hm
  have hdominated := (rounds_mul (x := clamp 0 1 0.25) rfl hcount).dominated
    (rounds_mul (x := clamp 0 1 0.75) rfl hcount) hfinite (by
      rw [real_of_parts hlower, real_of_parts hupper, abs_of_nonneg (by positivity)]
      refine mul_le_mul_of_nonneg_right ?_ hpos
      norm_num)
  exact (le_abs_self _).trans hdominated.2

/-- The quartiles of `4 k + 1` ascending values are in order. -/
theorem quartile_le {data : List Float} (hdata : data.Pairwise (· ≤ ·))
    (hfinite : ∀ v ∈ data, v.isFinite = true) (hlength : data.length < 2 ^ 63)
    (hmod : data.length % 4 = 1) : percentile data 0.25 ≤ percentile data 0.75 := by
  obtain ⟨hlower, hq1⟩ := quartile_eq_getElem .lower hlength hmod
  obtain ⟨hupper, hq3⟩ := quartile_eq_getElem .upper hlength hmod
  have hindex := Nat.floor_le_floor (quartileRank_le (m := data.length - 1) (by omega))
  rw [hq1, hq3]
  rcases hindex.lt_or_eq with hlt | heq
  · exact List.pairwise_iff_getElem.mp hdata _ _ hlower hupper hlt
  · simp only [heq]
    exact le_self (isNaN_of_isFinite (hfinite _ (List.getElem_mem _)))

end Statistics

end ChartCompiler
