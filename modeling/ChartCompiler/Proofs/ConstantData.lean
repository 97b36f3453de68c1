import ChartCompiler.Proofs.Magnitudes
import ChartCompiler.Proofs.Quantiles
import ChartCompiler.Proofs.RunningSums
import ChartCompiler.Statistics.Density

/-!
# Data of one value

Equal values have equal quartiles. Their mean is that value if no running sum is rounded, and else
it is off by an error relative to the value and to the number of values. All other spreads are
distances from the mean: they vanish if the mean is exact, or so close that squares of its distance
vanish, and they are a few times this distance at most.
-/

namespace ChartCompiler

open Double

namespace Statistics

/-! ## Sums of one number -/

section Sums

variable {values : List Float} {r : ℝ} (hvalues : ∀ x ∈ values, Exact x r)
include hvalues

theorem map_real_eq : values.map real = List.replicate values.length r :=
  List.eq_replicate_iff.mpr ⟨List.length_map _,
    List.forall_mem_map.mpr fun x hx => (hvalues x hx).real_eq⟩

theorem abs_sum_sub_mul_le (hcount : values.length ≤ 2 ^ 53)
    (hsum : (sum values).isFinite = true) :
    |real (sum values) - values.length * r| ≤ values.length ^ 2 * |r| / 2 ^ 53 := by
  have hbound := abs_sum_sub_le (fun x hx => (congrArg abs (hvalues x hx).real_eq).le) hcount hsum
  rwa [map_real_eq hvalues, List.sum_replicate, nsmul_eq_mul] at hbound

theorem sum_eq_mul (hexact : ∀ k ≤ values.length, IsDouble (k * r))
    (hsum : (sum values).isFinite = true) : real (sum values) = values.length * r := by
  have htotal := sum_eq (fun k hk => by
    rw [map_real_eq hvalues, List.take_replicate, min_eq_left hk, List.sum_replicate, nsmul_eq_mul]
    exact hexact k hk) hsum
  rwa [map_real_eq hvalues, List.sum_replicate, nsmul_eq_mul] at htotal

end Sums

/-! ## Distances from the mean -/

/-- How far a number is from the mean. -/
noncomputable def offset (values : List Float) (r : ℝ) : ℝ :=
  r - real (sum values / size values)

section Mean

variable {values : List Float} {r : ℝ} (hne : values ≠ []) (hcount : values.length ≤ 2 ^ 50)
  (hsum : (sum values).isFinite = true)
include hne hcount hsum

theorem real_mean : (sum values / size values).isFinite = true ∧
    real (sum values / size values) = nearest (real (sum values) / values.length) := by
  obtain ⟨hsize, hreal⟩ := Exact.ofNat (n := values.length) (by omega)
  change (size values).isFinite = true at hsize
  change real (size values) = values.length at hreal
  have hone : (1 : ℝ) ≤ values.length := by exact_mod_cast List.length_pos_iff.mpr hne
  have hrounds := rounds_div hsum hsize (by rw [hreal]; linarith)
  rw [hreal] at hrounds
  have hbound : |real (sum values) / values.length| ≤ |real (sum values)| := by
    rw [abs_div, Nat.abs_cast]
    exact div_le_self (abs_nonneg _) hone
  have hfits := (hrounds.bounded (isDouble_abs (isDouble_real hsum)) (abs_real_lt hsum) hbound).1
  exact ⟨hfits, hrounds.real_of_isFinite hfits⟩

variable (hvalues : ∀ x ∈ values, Exact x r)
include hvalues

/-- The mean is the double nearest to a number that is close to the value. -/
theorem abs_mean_sub_le :
    |real (sum values / size values) - r| ≤ values.length * |r| / 2 ^ 52 := by
  obtain ⟨first, hfirst⟩ := List.exists_mem_of_ne_nil _ hne
  have hpos : (0 : ℝ) < values.length := by exact_mod_cast List.length_pos_iff.mpr hne
  have htotal := abs_sum_sub_mul_le hvalues (by omega) hsum
  have hquotient : |real (sum values) / values.length - r| ≤ values.length * |r| / 2 ^ 53 := by
    have hsplit : real (sum values) / values.length - r =
        (real (sum values) - values.length * r) / values.length := by
      field_simp
    rw [hsplit, abs_div, Nat.abs_cast, div_le_iff₀ hpos]
    calc
      |real (sum values) - values.length * r| ≤ values.length ^ 2 * |r| / 2 ^ 53 := htotal
      _ = values.length * |r| / 2 ^ 53 * values.length := by ring
  have hnearest := abs_nearest_sub_le_abs_sub (r := real (sum values) / values.length)
    (hvalues first hfirst).isDouble
  rw [abs_sub_comm r] at hnearest
  rw [(real_mean hne hcount hsum).2]
  calc
    |nearest (real (sum values) / values.length) - r| ≤
        |nearest (real (sum values) / values.length) - real (sum values) / values.length| +
          |real (sum values) / values.length - r| := abs_sub_le _ _ _
    _ ≤ values.length * |r| / 2 ^ 52 := by linarith

theorem mean_eq (hexact : ∀ k ≤ values.length, IsDouble (k * r)) :
    real (sum values / size values) = r := by
  have hpos : (0 : ℝ) < values.length := by exact_mod_cast List.length_pos_iff.mpr hne
  obtain ⟨first, hfirst⟩ := List.exists_mem_of_ne_nil _ hne
  rw [(real_mean hne hcount hsum).2, sum_eq_mul hvalues hexact hsum, mul_div_cancel_left₀ _ hpos.ne',
    nearest_of_isDouble (hvalues first hfirst).isDouble]

/-- The mean is close enough for its distance to be exact. -/
theorem exact_distance {x : Float} (hx : Exact x r) :
    Exact (x - sum values / size values) (offset values r) := by
  obtain ⟨hmean, -⟩ := real_mean hne hcount hsum
  have hclose : |real (sum values / size values) - r| ≤ |r| / 4 := by
    have hlength : (values.length : ℝ) ≤ 2 ^ 50 := by exact_mod_cast hcount
    refine (abs_mean_sub_le hne hcount hsum hvalues).trans ?_
    have hscaled := mul_le_mul_of_nonneg_right hlength (abs_nonneg r)
    linarith
  have hrounds := rounds_sub hx.isFinite hmean
  rw [hx.real_eq] at hrounds
  refine .of_rounds hrounds (isDouble_sub_of_close hx.isDouble (isDouble_real hmean) hclose) ?_
  have hlimit := hx.abs_lt
  rw [offset, abs_sub_comm]
  linarith [abs_nonneg r]

theorem rounds_square {x : Float} (hx : Exact x r) :
    Rounds ((x - sum values / size values) * (x - sum values / size values))
      (offset values r ^ 2) := by
  obtain ⟨hfinite, hreal⟩ := exact_distance hne hcount hsum hvalues hx
  have hrounds := rounds_mul hfinite hfinite
  rwa [hreal, ← sq] at hrounds

/-! ## Spread -/

/-- Squares that vanish leave no deviation. -/
theorem exact_standardDeviation
    (hclose : offset values r ^ 2 ≤ finest / 2) :
    Exact (standardDeviation values) 0 := by
  unfold standardDeviation
  split_ifs with hfew
  · exact ⟨rfl, real_zero⟩
  · let squares := values.map fun x =>
      (x - sum values / size values) * (x - sum values / size values)
    have hsquares : ∀ s ∈ squares, s.isFinite = true ∧ 0 ≤ real s ∧ real s ≤ 0 := by
      intro s hs
      obtain ⟨x, hx, rfl⟩ := List.mem_map.mp hs
      have hsquare := rounds_square hne hcount hsum hvalues (hvalues x hx)
      have hzero : nearest (offset values r ^ 2) = 0 := by
        have hnone := mt (nearest_pos_iff (sq_nonneg (offset values r))).mp hclose.not_gt
        exact le_antisymm (not_lt.mp hnone) (nearest_nonneg (sq_nonneg _))
      have hfits : |nearest (offset values r ^ 2)| < limit := by
        rw [hzero, abs_zero]
        exact limit_pos
      rw [hsquare.real_eq hfits, hzero]
      exact ⟨hsquare.isFinite hfits, le_rfl, le_rfl⟩
    have hlength : squares.length ≤ 2 ^ 53 := by
      rw [List.length_map]
      omega
    obtain ⟨htotal, hlow, hhigh⟩ := sum_between scales_zero scales_zero hsquares hlength
    rw [mul_zero] at hlow hhigh
    obtain ⟨hfreedom, hreal⟩ := Exact.ofNat (n := values.length - 1) (by omega)
    have hpos : (0 : ℝ) < (values.length - 1 : ℕ) := by
      exact_mod_cast (by omega : 0 < values.length - 1)
    have hvariance := rounds_div htotal hfreedom (by rw [hreal]; exact hpos.ne')
    rw [le_antisymm hhigh hlow, zero_div] at hvariance
    obtain ⟨hfinite, hnone⟩ := Exact.zero_of_rounds hvariance
    have hroot := rounds_sqrt hfinite hnone.ge
    rw [hnone, Real.sqrt_zero] at hroot
    exact .zero_of_rounds hroot

/-- A finite deviation is the root of a mean of equal squares. With one degree of freedom less than
values, and rounded, the mean is still close to the square. -/
theorem exists_variance (hmany : 2 ≤ values.length)
    (hfinite : (standardDeviation values).isFinite = true) :
    ∃ variance, 7 / 8 * nearest (offset values r ^ 2) ≤ variance ∧
      variance ≤ 9 / 4 * nearest (offset values r ^ 2) ∧
      real (standardDeviation values) = nearest (Real.sqrt (nearest variance)) := by
  unfold standardDeviation at hfinite ⊢
  rw [if_neg (by omega)] at hfinite ⊢
  dsimp only at hfinite ⊢
  obtain ⟨squares, hshape⟩ : ∃ squares, (values.map fun x =>
      (x - sum values / size values) * (x - sum values / size values)) = squares := ⟨_, rfl⟩
  rw [hshape] at hfinite ⊢
  have hvariance := isFinite_of_sqrt hfinite
  have htotal := isFinite_of_div hvariance
  have hexact : ∀ s ∈ squares, Exact s (nearest (offset values r ^ 2)) := by
    intro s hs
    have hsfinite := (isFinite_of_foldl_add htotal).2 s hs
    rw [← hshape] at hs
    obtain ⟨x, hx, rfl⟩ := List.mem_map.mp hs
    exact ⟨hsfinite,
      (rounds_square hne hcount hsum hvalues (hvalues x hx)).real_of_isFinite hsfinite⟩
  have hlength : squares.length = values.length := by rw [← hshape, List.length_map]
  have hsquare : 0 ≤ nearest (offset values r ^ 2) := nearest_nonneg (sq_nonneg _)
  generalize nearest (offset values r ^ 2) = square at *
  have hcast : (values.length : ℝ) ≤ 2 ^ 50 := by exact_mod_cast hcount
  have htwo : (2 : ℝ) ≤ values.length := by exact_mod_cast hmany
  have herror : |real (sum squares) - values.length * square| ≤ values.length * square / 8 := by
    have hbound := abs_sum_sub_mul_le hexact (by omega) htotal
    rw [hlength, abs_of_nonneg hsquare] at hbound
    have hscaled := mul_le_mul_of_nonneg_right hcast (by positivity : 0 ≤ values.length * square)
    calc
      |real (sum squares) - values.length * square| ≤
          values.length ^ 2 * square / 2 ^ 53 := hbound
      _ = values.length * (values.length * square) / 2 ^ 53 := by ring
      _ ≤ values.length * square / 8 := by linarith
  obtain ⟨hlow, hhigh⟩ := abs_le.mp herror
  obtain ⟨hfreedom, hreal⟩ := Exact.ofNat (n := values.length - 1) (by omega)
  rw [Nat.cast_sub (by omega), Nat.cast_one] at hreal
  have hquotient := rounds_div htotal hfreedom (by rw [hreal]; linarith)
  rw [hreal] at hquotient
  have hleast : 7 / 8 * square ≤ real (sum squares) / (values.length - 1) := by
    rw [le_div_iff₀ (by linarith)]
    nlinarith
  have hmost : real (sum squares) / (values.length - 1) ≤ 9 / 4 * square := by
    rw [div_le_iff₀ (by linarith)]
    nlinarith
  have hnonneg := hquotient.nonneg (by linarith)
  have hroot := (rounds_sqrt hvariance hnonneg).real_of_isFinite hfinite
  rw [hquotient.real_of_isFinite hvariance] at hroot
  exact ⟨_, hleast, hmost, hroot⟩

/-- The deviation is a few times the distance of the mean at most. -/
theorem standardDeviation_le (hfinite : (standardDeviation values).isFinite = true) :
    real (standardDeviation values) ≤ 6 * |offset values r| := by
  rcases lt_or_ge values.length 2 with hfew | hmany
  · rw [standardDeviation, if_pos hfew, real_zero]
    positivity
  · obtain ⟨variance, hlow, hhigh, hreal⟩ :=
      exists_variance hne hcount hsum hvalues hmany hfinite
    have hsquare : 0 ≤ nearest (offset values r ^ 2) := nearest_nonneg (sq_nonneg _)
    have hdouble := nearest_le_two_mul (sq_nonneg (offset values r))
    have hvariance : nearest variance ≤ (3 * |offset values r|) ^ 2 := by
      have hrounded := nearest_le_two_mul (by linarith : 0 ≤ variance)
      rw [mul_pow, sq_abs]
      linarith
    have hroot := Real.sqrt_le_sqrt hvariance
    rw [Real.sqrt_sq (by positivity)] at hroot
    rw [hreal]
    refine (nearest_le_two_mul (Real.sqrt_nonneg _)).trans ?_
    linarith

/-- The deviation vanishes exactly if the square of the distance does. -/
theorem exact_standardDeviation_iff :
    Exact (standardDeviation values) 0 ↔
      values.length < 2 ∨ offset values r ^ 2 ≤ finest / 2 := by
  constructor
  · rintro ⟨hfinite, hzero⟩
    by_contra hnone
    rw [not_or, not_lt, not_le] at hnone
    obtain ⟨hmany, hlarge⟩ := hnone
    obtain ⟨variance, hlow, -, hreal⟩ :=
      exists_variance hne hcount hsum hvalues hmany hfinite
    have hunit : 0 < finest := zpow_two_pos _
    have hsquare := finest_le_of_pos (isDouble_nearest _)
      ((nearest_pos_iff (sq_nonneg _)).mpr hlarge)
    have hvariance := finest_le_of_pos (isDouble_nearest _)
      ((nearest_pos_iff (by linarith)).mpr (by linarith : finest / 2 < variance))
    have hroot : finest ≤ Real.sqrt (nearest variance) := by
      refine Real.le_sqrt_of_sq_le (le_trans ?_ hvariance)
      have hone : finest ≤ 1 := by
        have hpower := zpow_two_le (d := -1074) (e := 0) (by norm_num)
        rwa [zpow_zero] at hpower
      rw [sq]
      exact mul_le_of_le_one_left hunit.le hone
    have hpos := (nearest_pos_iff (Real.sqrt_nonneg _)).mpr
      (by linarith : finest / 2 < Real.sqrt (nearest variance))
    rw [← hreal, hzero] at hpos
    exact lt_irrefl 0 hpos
  · rintro (hfew | hclose)
    · rw [standardDeviation, if_pos hfew]
      exact ⟨rfl, real_zero⟩
    · exact exact_standardDeviation hne hcount hsum hvalues hclose

end Mean

/-! ## Quartiles -/

theorem mixed_halves_self {r : ℝ} (hr : IsDouble r) (hhalf : IsDouble (r / 2)) :
    mixed (1 / 2) (1 / 2) r r = r := by
  rw [mixed, mul_one_div, nearest_of_isDouble hhalf, add_halves, nearest_of_isDouble hr]

/-- Equal values have equal quartiles, and these are the value unless it is halved for them and
cannot be. -/
theorem exact_quartiles {data : List Float} {r : ℝ} (hne : data ≠ [])
    (hcount : data.length ≤ 2 ^ 51) (hdata : ∀ x ∈ data, Exact x r) :
    ∃ q, Exact (percentile data 0.25) q ∧ Exact (percentile data 0.75) q ∧
      (data.length % 4 ≠ 3 ∨ IsDouble (r / 2) → q = r) := by
  have hfinite : ∀ x ∈ data, x.isFinite = true := fun x hx => (hdata x hx).isFinite
  obtain ⟨first, hfirst⟩ := List.exists_mem_of_ne_nil _ hne
  have hdouble := (hdata first hfirst).isDouble
  have hget : ∀ i < data.length, real (data.getD i 0) = r := by
    intro i hi
    rw [List.getD_eq_getElem _ _ hi]
    exact (hdata _ (List.getElem_mem hi)).real_eq
  have hself := mixed_quarters_self hdouble
  suffices hvalue : ∃ q, real (percentile data 0.25) = q ∧ real (percentile data 0.75) = q ∧
      (data.length % 4 ≠ 3 ∨ IsDouble (r / 2) → q = r) by
    obtain ⟨q, hlower, hupper, hq⟩ := hvalue
    have hpos := List.length_pos_iff.mpr hne
    exact ⟨q, ⟨(real_percentile hne hfinite (by omega) rfl).1, hlower⟩,
      ⟨(real_percentile hne hfinite (by omega) rfl).1, hupper⟩, hq⟩
  have hmeans := quartileMeans hne hfinite hcount
  generalize data.length = n at hget hmeans ⊢
  generalize real (percentile data 0.25) = lower at hmeans ⊢
  generalize real (percentile data 0.75) = upper at hmeans ⊢
  cases hmeans with
  | whole q => exact ⟨r, hget q (by omega), hget (3 * q) (by omega), fun _ => rfl⟩
  | outwards q =>
      rw [hget q (by omega), hget (q + 1) (by omega), hget (3 * q) (by omega),
        hget (3 * q + 1) (by omega), mixed_swap (1 / 4)]
      exact ⟨r, hself, hself, fun _ => rfl⟩
  | halves q =>
      rw [hget q (by omega), hget (q + 1) (by omega), hget (3 * q + 1) (by omega),
        hget (3 * q + 2) (by omega)]
      refine ⟨_, rfl, rfl, ?_⟩
      rintro (hother | hhalf)
      · omega
      · exact mixed_halves_self hdouble hhalf
  | inwards q =>
      rw [hget q (by omega), hget (q + 1) (by omega), hget (3 * q + 2) (by omega),
        hget (3 * q + 3) (by omega), mixed_swap (1 / 4)]
      exact ⟨r, hself, hself, fun _ => rfl⟩

theorem exact_quartileRange {values : List Float} {r : ℝ} (hne : values ≠ [])
    (hcount : values.length ≤ 2 ^ 51) (hvalues : ∀ x ∈ values, Exact x r) :
    ∃ q, Exact (percentile (sorted values) 0.25) q ∧ Exact (percentile (sorted values) 0.75) q ∧
      (values.length % 4 ≠ 3 ∨ IsDouble (r / 2) → q = r) ∧ Exact (quartileRange values) 0 := by
  have hperm := sorted_perm values
  have hsortedNe : sorted values ≠ [] := fun hnil => hne (List.perm_nil.mp (hnil ▸ hperm.symm))
  obtain ⟨q, hlower, hupper, hq⟩ := exact_quartiles hsortedNe (by rwa [length_sorted])
    (fun x hx => hvalues x (hperm.mem_iff.mp hx))
  rw [length_sorted] at hq
  refine ⟨q, hlower, hupper, hq, ?_⟩
  have hdifference := rounds_sub hupper.isFinite hlower.isFinite
  rw [hupper.real_eq, hlower.real_eq, sub_self] at hdifference
  exact .zero_of_rounds hdifference

/-! ## No spread -/

section NoSpread

variable {values : List Float} (hcount : values.length ≤ 2 ^ 50)
  (hdeviation : Exact (standardDeviation values) 0)
include hcount hdeviation

theorem exact_standardError : Exact (standardError values) 0 := by
  unfold standardError
  split_ifs with hempty
  · exact ⟨rfl, real_zero⟩
  · obtain ⟨hsize, hreal⟩ := Exact.ofNat (n := values.length) (by omega)
    have hone : (1 : ℝ) ≤ values.length := by
      have hne : values ≠ [] := fun hnil => hempty (List.isEmpty_iff.mpr hnil)
      exact_mod_cast List.length_pos_iff.mpr hne
    have hroot := rounds_sqrt hsize (by rw [hreal]; linarith)
    rw [hreal] at hroot
    obtain ⟨hfinite, hlow, -⟩ := hroot.between isDouble_one (isDouble_pow 50)
      (by linarith [limit_pos]) (pow_lt_limit (by norm_num)) (Real.one_le_sqrt.mpr hone)
      (Real.sqrt_le_iff.mpr ⟨by positivity, by
        calc
          (values.length : ℝ) ≤ 2 ^ 50 := by exact_mod_cast hcount
          _ ≤ (2 ^ 50) ^ 2 := by norm_num⟩)
    have hquotient := rounds_div hdeviation.isFinite hfinite (by linarith)
    rw [hdeviation.real_eq, zero_div] at hquotient
    exact .zero_of_rounds hquotient

/-- Nothing is left of a confidence interval either, whatever its finite critical value. -/
theorem exact_dispersion {e : ErrorBar} (hkind : e.kind ≠ .quartiles)
    (hcritical : e.kind = .confidence → 2 ≤ values.length →
      (criticalValue e.confidenceLevel (Float.ofNat (values.length - 1))).isFinite = true) :
    Exact (e.dispersion values) 0 := by
  have herror := exact_standardError hcount hdeviation
  unfold ErrorBar.dispersion
  cases hcases : e.kind with
  | standardError => exact herror
  | standardDeviation => exact hdeviation
  | quartiles => exact absurd hcases hkind
  | confidence =>
      dsimp only
      unfold confidenceHalfWidth
      split_ifs with hfew
      · exact ⟨rfl, real_zero⟩
      · have hproduct := rounds_mul (hcritical hcases (by omega)) herror.isFinite
        rw [herror.real_eq, mul_zero] at hproduct
        exact .zero_of_rounds hproduct

omit hcount in
/-- Without any spread the bandwidth is the one for data without spread. -/
theorem bandwidth_eq_one (hrange : Exact (quartileRange values) 0) : bandwidth values = 1 := by
  have hnone : ¬0 < quartileRange values := by
    rw [real_lt_real_iff rfl hrange.isFinite, real_zero, hrange.real_eq]
    exact lt_irrefl 0
  have hscale : standardDeviation values ≤ 0 := by
    rw [real_le_real_iff hdeviation.isFinite rfl, real_zero, hdeviation.real_eq]
  unfold bandwidth
  dsimp only
  split_ifs
  · rfl
  · rfl

end NoSpread

/-- All other bars end a spread away from the mean. -/
theorem ends_of_dispersion {e : ErrorBar} {category : String} {values : List Float}
    {point : ErrorBarPoint} (hkind : e.kind ≠ .quartiles)
    (hpoint : ErrorBarPoint.of? e category values = some point) :
    point.low = point.center - e.dispersion values ∧
      point.high = point.center + e.dispersion values := by
  obtain ⟨center, -, rfl⟩ := Option.map_eq_some_iff.mp hpoint
  dsimp only
  split
  · next hquartiles => exact absurd hquartiles hkind
  · exact ⟨rfl, rfl⟩

theorem center_eq {e : ErrorBar} {category : String} {values : List Float} {point : ErrorBarPoint}
    (hpoint : ErrorBarPoint.of? e category values = some point) :
    mean? values = some point.center := by
  obtain ⟨center, hmean, rfl⟩ := Option.map_eq_some_iff.mp hpoint
  exact hmean

/-- Without any spread an error bar ends where it starts. -/
theorem exact_ends {e : ErrorBar} {category : String} {values : List Float} {point : ErrorBarPoint}
    {q r : ℝ} (hpoint : ErrorBarPoint.of? e category values = some point)
    (hcount : values.length ≤ 2 ^ 50) (hcenter : Exact point.center r)
    (hdeviation : Exact (standardDeviation values) 0)
    (hlower : Exact (percentile (sorted values) 0.25) q)
    (hupper : Exact (percentile (sorted values) 0.75) q) (hquartile : e.kind = .quartiles → q = r)
    (hcritical : e.kind = .confidence → 2 ≤ values.length →
      (criticalValue e.confidenceLevel (Float.ofNat (values.length - 1))).isFinite = true) :
    Exact point.low r ∧ Exact point.high r := by
  by_cases hkind : e.kind = .quartiles
  · obtain ⟨hlow, hhigh⟩ := ends_of_quartiles hkind hpoint
    rw [hlow, hhigh, ← hquartile hkind]
    exact ⟨hlower, hupper⟩
  · obtain ⟨hlow, hhigh⟩ := ends_of_dispersion hkind hpoint
    have hspread := exact_dispersion hcount hdeviation hkind hcritical
    have hbelow := rounds_sub hcenter.isFinite hspread.isFinite
    have habove := rounds_add hcenter.isFinite hspread.isFinite
    rw [hcenter.real_eq, hspread.real_eq, sub_zero] at hbelow
    rw [hcenter.real_eq, hspread.real_eq, add_zero] at habove
    rw [hlow, hhigh]
    exact ⟨.of_rounds hbelow hcenter.isDouble hcenter.abs_lt,
      .of_rounds habove hcenter.isDouble hcenter.abs_lt⟩

/-- Equal values have no distance of quartiles. Their mean is off by a part of the value at most, and
it is exact if all small multiples of the value are doubles. The deviation is zero exactly if the
square of the distance of the mean vanishes, and if it is finite it is six times this distance at
most. From an exact mean on nothing is left of any spread, and error bars shrink to the value: those
of confidence intervals if their critical values are finite, those of quartiles unless the value is
halved for them and cannot be. -/
theorem spread_of_constant {values : List Float} {v : Float} (hne : values ≠ [])
    (hcount : values.length ≤ 2 ^ 50) (hvalues : ∀ x ∈ values, Exact x (real v))
    (hsum : (sum values).isFinite = true) :
    Exact (quartileRange values) 0 ∧
      ∃ mean, mean? values = some mean ∧ mean.isFinite = true ∧
        |real mean - real v| ≤ values.length * |real v| / 2 ^ 52 ∧
        ((∀ k ≤ values.length, IsDouble (k * real v)) → Exact mean (real v)) ∧
        (Exact (standardDeviation values) 0 ↔
          values.length < 2 ∨ (real v - real mean) ^ 2 ≤ 2 ^ (-1075 : ℤ)) ∧
        ((standardDeviation values).isFinite = true →
          real (standardDeviation values) ≤ 6 * |real v - real mean|) ∧
        (Exact mean (real v) → Exact (standardDeviation values) 0 ∧
          Exact (standardError values) 0 ∧ bandwidth values = 1 ∧
          ∀ (e : ErrorBar) (category : String),
            (e.kind = .confidence → 2 ≤ values.length →
              (criticalValue e.confidenceLevel (Float.ofNat (values.length - 1))).isFinite = true) →
            (e.kind = .quartiles → values.length % 4 ≠ 3 ∨ IsDouble (real v / 2)) →
            ∃ point, ErrorBarPoint.of? e category values = some point ∧
              Exact point.center (real v) ∧ Exact point.low (real v) ∧
              Exact point.high (real v)) := by
  obtain ⟨q, hlower, hupper, hq, hrange⟩ :=
    exact_quartileRange hne (hcount.trans (by norm_num)) hvalues
  have hmean : mean? values = some (sum values / size values) :=
    if_neg (mt List.isEmpty_iff.mp hne)
  have hfinite := (real_mean hne hcount hsum).1
  have hhalf : finest / 2 = 2 ^ (-1075 : ℤ) := by
    rw [finest, twoPow, show (-1074 : ℤ) = 1 + -1075 by norm_num, zpow_two_add, zpow_one,
      mul_div_cancel_left₀ _ two_ne_zero]
  have hiff := exact_standardDeviation_iff hne hcount hsum hvalues
  rw [hhalf] at hiff
  refine ⟨hrange, _, hmean, hfinite, abs_mean_sub_le hne hcount hsum hvalues,
    fun hexact => ⟨hfinite, mean_eq hne hcount hsum hvalues hexact⟩, hiff,
    standardDeviation_le hne hcount hsum hvalues, fun hcenter => ?_⟩
  have hdeviation : Exact (standardDeviation values) 0 := by
    refine hiff.mpr (.inr ?_)
    rw [offset, hcenter.real_eq, sub_self, sq, mul_zero]
    exact (zpow_two_pos _).le
  refine ⟨hdeviation, exact_standardError hcount hdeviation, bandwidth_eq_one hdeviation hrange,
    fun e category hcritical hhalved => ?_⟩
  obtain ⟨point, hpoint⟩ : ∃ point, ErrorBarPoint.of? e category values = some point := by
    rw [ErrorBarPoint.of?, hmean]
    exact ⟨_, rfl⟩
  have hpointCenter : Exact point.center (real v) := by
    rw [center_eq hpoint, Option.some.injEq] at hmean
    rwa [hmean]
  exact ⟨point, hpoint, hpointCenter, exact_ends hpoint hcount hpointCenter hdeviation hlower hupper
    (fun hkind => hq (hhalved hkind)) hcritical⟩

theorem spread_of_constant_threes :
    [3, 3, 3] ≠ ([] : List Float) ∧ ([3, 3, 3] : List Float).length ≤ 2 ^ 50 ∧
      (∀ x ∈ [3, 3, 3], Exact x (real 3)) ∧ (sum [3, 3, 3]).isFinite = true ∧
      Exact (quartileRange [3, 3, 3]) 0 ∧ Exact (standardDeviation [3, 3, 3]) 0 ∧
      bandwidth [3, 3, 3] = 1 := by
  have hne : [3, 3, 3] ≠ ([] : List Float) := List.cons_ne_nil _ _
  have hcount : ([3, 3, 3] : List Float).length ≤ 2 ^ 50 := by decide
  have hvalues : ∀ x ∈ [3, 3, 3], Exact x (real 3) := by
    intro x hx
    obtain rfl : x = 3 := by simpa using hx
    exact ⟨rfl, rfl⟩
  have hsum : (sum [3, 3, 3]).isFinite = true := by decide +kernel
  have hthree : real 3 = (3 : ℕ) := (exact_ofNat (by norm_num)).2
  obtain ⟨hrange, mean, -, -, -, hexact, -, -, hspread⟩ :=
    spread_of_constant hne hcount hvalues hsum
  have hmean : Exact mean (real 3) := hexact fun k hk => by
    have hlength : k ≤ 3 := hk
    rw [hthree, ← Nat.cast_mul]
    exact isDouble_natCast (by omega)
  exact ⟨hne, hcount, hvalues, hsum, hrange, (hspread hmean).1, (hspread hmean).2.2.1⟩

/-- Three tenths, added up, are more than three times a tenth, and their mean is more than a tenth. -/
theorem spread_of_tenths :
    (∀ x ∈ [0.1, 0.1, 0.1], x = (0.1 : Float)) ∧ Float.isFinite 0.1 = true ∧
      (sum [0.1, 0.1, 0.1]).isFinite = true ∧
      ¬standardDeviation [0.1, 0.1, 0.1] ≤ 0 ∧ ¬standardError [0.1, 0.1, 0.1] ≤ 0 ∧
      ∃ point, ErrorBarPoint.of? ⟨.standardDeviation, none⟩ "a" [0.1, 0.1, 0.1] = some point ∧
        0.1 < point.center ∧ 0.1 < point.high :=
  ⟨by simp, rfl, by decide +kernel, by decide +kernel, by decide +kernel, _, rfl,
    by decide +kernel, by decide +kernel⟩

end Statistics

end ChartCompiler
