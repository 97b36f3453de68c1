import ChartCompiler.Proofs.Magnitudes
import ChartCompiler.Proofs.Platforms
import ChartCompiler.Statistics.Density
import Mathlib.Analysis.Complex.ExponentialBounds
import Mathlib.Analysis.SpecialFunctions.Pow.Real

/-!
# Densities are scaled to one

The kernel of a number that is not too far from the data is not lost to rounding, and the first
point of the grid is not too far from the least value. So the peak is positive, and division by it
brings every height into the unit interval and the greatest to one.
-/

namespace ChartCompiler

open Double Float.Model Float.Model.UnpackedFloat

namespace Statistics

/-! ## Curves over a platform -/

namespace Platform

def gaussian (p : Platform) (u : Float) : Float :=
  p.exp (-0.5 * u * u) / 2.5066282746310002

def bandwidth (p : Platform) (values : List Float) : Float :=
  if values.length < 2 then 1
  else
    let deviation := standardDeviation values
    let range := quartileRange values
    let scale := if 0 < range then lesser deviation (range / 1.34) else deviation
    if scale ≤ 0 then 1 else 0.9 * scale * p.pow (size values) (-0.2)

/-- The height of the curve at a place, before it is scaled. -/
def height (p : Platform) (values : List Float) (bandwidth place : Float) : Float :=
  sum (values.map fun x => p.gaussian ((place - x) / bandwidth)) / (size values * bandwidth)

end Platform

def gridStart (values : List Float) (bandwidth : Float) : Float :=
  least values - 3 * bandwidth

def gridRange (values : List Float) (bandwidth : Float) : Float :=
  greatest values + 3 * bandwidth - gridStart values bandwidth

def gridPlace (values : List Float) (bandwidth : Float) (points i : Nat) : Float :=
  gridStart values bandwidth + Float.ofNat i * (gridRange values bandwidth / Float.ofNat (points - 1))

/-- Heights in proportion to the greatest one, if that is positive. -/
def scaledToPeak (heights : List Float) : List Float :=
  let peak := heights.foldl greater 0
  if 0 < peak then heights.map (· / peak) else heights

def Platform.density (p : Platform) (values : List Float) (bandwidth : Float) (points : Nat) :
    Density :=
  if values.isEmpty || points = 0 then ⟨[], []⟩
  else if gridRange values bandwidth ≤ 0 || points = 1 then ⟨[least values], [1]⟩
  else
    let grid := (List.range points).map (gridPlace values bandwidth points)
    ⟨grid, scaledToPeak (grid.map (p.height values bandwidth))⟩

theorem bandwidth_eq_compiled : bandwidth = Platform.compiled.bandwidth := rfl

theorem density_eq_compiled : Density.of = Platform.compiled.density := rfl

/-! ## Kernels -/

namespace Platform

theorem real_minus_half : real (-0.5) = -(1 / 2) := by
  have hparts : parts 0.5 = .finite .positive (2 ^ 52) (-53) (by decide) := rfl
  have hhalf : real 0.5 = 1 / 2 := by
    rw [real_of_parts hparts]
    norm_num
  exact (real_neg 0.5).trans (congrArg _ hhalf)

theorem real_rootTwoPi : 2 ≤ real 2.5066282746310002 ∧ real 2.5066282746310002 ≤ 4 := by
  have hparts : parts 2.5066282746310002 =
      .finite .positive 5644425081792261 (-51) (by decide) := rfl
  rw [real_of_parts hparts]
  norm_num

section Exponents

variable {u : Float}

/-- The exponent of the kernel, of a finite number. -/
theorem rounds_exponent (hu : u.isFinite = true) :
    (-0.5 * u).isFinite = true ∧ Rounds (-0.5 * u * u) (real (-0.5 * u) * real u) ∧
      real (-0.5 * u) * real u ≤ 0 := by
  have hhalf := rounds_mul (x := -0.5) rfl hu
  rw [real_minus_half] at hhalf
  have hsmall : |-(1 / 2) * real u| ≤ |real u| := by
    rw [abs_mul, abs_neg]
    norm_num
    linarith [abs_nonneg (real u)]
  have hdouble : IsDouble |real u| := by
    rw [← real_abs]
    exact isDouble_real (by rw [isFinite_abs, hu])
  obtain ⟨hfinite, -⟩ := hhalf.bounded hdouble (abs_real_lt hu) hsmall
  refine ⟨hfinite, rounds_mul hfinite hu, ?_⟩
  have hreal := hhalf.real_of_isFinite hfinite
  rcases le_total 0 (real u) with hpos | hneg
  · have hle : real (-0.5 * u) ≤ 0 := by
      rw [hreal]
      exact nearest_le isDouble_zero (by linarith)
    exact mul_nonpos_of_nonpos_of_nonneg hle hpos
  · have hge : 0 ≤ real (-0.5 * u) := by
      rw [hreal]
      exact nearest_nonneg (by linarith)
    exact mul_nonpos_of_nonneg_of_nonpos hge hneg

/-- The exponent of the kernel is not positive, and may be infinite. -/
theorem exponent_cases (hu : u.isNaN = false) :
    -0.5 * u * u = -infinity ∨ (-0.5 * u * u).isFinite = true ∧ -0.5 * u * u ≤ 0 := by
  by_cases hfinite : u.isFinite = true
  · obtain ⟨-, hrounds, hle⟩ := rounds_exponent hfinite
    have hnonpos : -0.5 * u * u ≤ 0 := hrounds.le rfl (by rwa [real_zero])
    by_cases hsquare : (-0.5 * u * u).isFinite = true
    · exact .inr ⟨hsquare, hnonpos⟩
    · obtain ⟨t, ht⟩ := parts_of_infinite hrounds.isNaN hsquare
      cases t with
      | positive => exact absurd hnonpos (not_le_zero_of_top ht)
      | negative => exact .inl (eq_of_infinity ht rfl)
  · obtain ⟨t, ht⟩ := parts_of_infinite hu hfinite
    have hhalf : parts (-0.5 * u) = .infinity (-t) :=
      parts_product (by rw [ht]; cases t <;> rfl)
    exact .inl (eq_of_infinity (t := .negative)
      (parts_product (by rw [hhalf, ht]; cases t <;> rfl)) rfl)

variable {p : Platform} (hp : p.IsFaithful)
include hp

/-- The kernel is neither negative nor greater than one. -/
theorem gaussian_bounds (hu : u.isNaN = false) :
    Bounded (p.gaussian u) 0 ∧ 0 ≤ real (p.gaussian u) := by
  obtain ⟨hlow, hhigh⟩ := real_rootTwoPi
  have hnonzero : real 2.5066282746310002 ≠ 0 := by linarith
  have hexp : (p.exp (-0.5 * u * u)).isFinite = true ∧ 0 ≤ real (p.exp (-0.5 * u * u)) ∧
      real (p.exp (-0.5 * u * u)) ≤ 2 := by
    rcases exponent_cases hu with hbottom | ⟨hfinite, hle⟩
    · rw [hbottom, hp.exp_infinity, real_zero]
      exact ⟨rfl, le_rfl, zero_le_two⟩
    · obtain ⟨hresult, hnonneg, hnear⟩ := hp.exp_near _ hfinite hle
      rw [real_le_real_iff rfl hresult, real_zero] at hnonneg
      rw [real_le_real_iff hfinite rfl, real_zero] at hle
      have hone : Real.exp (real (-0.5 * u * u)) ≤ 1 := Real.exp_le_one_iff.mpr hle
      have hleast : finest ≤ 2 ^ (-1 : ℤ) := zpow_two_le (by norm_num)
      norm_num at hleast
      refine ⟨hresult, hnonneg, ?_⟩
      linarith [(abs_le.mp hnear).2]
  obtain ⟨hfinite, hnonneg, htwo⟩ := hexp
  have hquotient := rounds_div hfinite (y := 2.5066282746310002) rfl hnonzero
  have hpos : 0 ≤ real (p.exp (-0.5 * u * u)) / real 2.5066282746310002 :=
    div_nonneg hnonneg (by linarith)
  refine ⟨.of_rounds hquotient ?_ (by norm_num), hquotient.nonneg hpos⟩
  rw [abs_of_nonneg hpos, div_le_iff₀ (by linarith)]
  linarith

omit hp in
theorem le_exp {r : ℝ} (hr : -32 ≤ r) : 2 ^ (-51 : ℤ) ≤ Real.exp r := by
  have hthree : Real.exp 1 ≤ 3 := Real.exp_one_lt_d9.le.trans (by norm_num)
  have hpower : Real.exp 32 ≤ 2 ^ 51 := by
    calc
      Real.exp 32 = Real.exp 1 ^ 32 := by rw [← Real.exp_nat_mul]; norm_num
      _ ≤ 3 ^ 32 := pow_le_pow_left₀ (Real.exp_pos 1).le hthree 32
      _ ≤ 2 ^ 51 := by norm_num
  calc
    (2 : ℝ) ^ (-51 : ℤ) = (2 ^ 51)⁻¹ := by norm_num
    _ ≤ (Real.exp 32)⁻¹ := inv_anti₀ (Real.exp_pos 32) hpower
    _ = Real.exp (-32) := (Real.exp_neg 32).symm
    _ ≤ Real.exp r := Real.exp_le_exp.mpr hr

/-- Up to eight bandwidths away the kernel is not lost to rounding. -/
theorem le_gaussian (hu : Bounded u 3) : 2 ^ (-55 : ℤ) ≤ real (p.gaussian u) := by
  obtain ⟨hlow, hhigh⟩ := real_rootTwoPi
  obtain ⟨-, hrounds, hle⟩ := rounds_exponent hu.isFinite
  have hhalf : Bounded (-0.5 * u) 2 := by
    have hproduct := rounds_mul (x := -0.5) rfl hu.isFinite
    rw [real_minus_half] at hproduct
    refine .of_rounds hproduct ?_ (by norm_num)
    rw [abs_mul, abs_neg]
    norm_num
    linarith [hu.within]
  obtain ⟨hfinite, hwithin⟩ := hhalf.mul hu (by norm_num)
  have hnonpos : -0.5 * u * u ≤ 0 := hrounds.le rfl (by rwa [real_zero])
  obtain ⟨hresult, -, hexp⟩ := hp.exp_near _ hfinite hnonpos
  have hexact : 2 ^ (-51 : ℤ) ≤ Real.exp (real (-0.5 * u * u)) :=
    le_exp (by linarith [(abs_le.mp hwithin).1])
  have hleast : finest ≤ 2 ^ (-53 : ℤ) := zpow_two_le (by norm_num)
  have hbound : 2 ^ (-53 : ℤ) ≤ real (p.exp (-0.5 * u * u)) := by
    have herror := (abs_le.mp hexp).1
    norm_num at hexact hleast ⊢
    linarith
  have hquotient := rounds_div hresult (y := 2.5066282746310002) rfl (by linarith)
  have hfinal := (gaussian_bounds hp (isNaN_of_isFinite hu.isFinite)).1.isFinite
  rw [gaussian, hquotient.real_of_isFinite hfinal]
  refine le_nearest (isDouble_zpow (by norm_num)) ?_
  rw [le_div_iff₀ (by linarith)]
  calc
    (2 : ℝ) ^ (-55 : ℤ) * real 2.5066282746310002 ≤ 2 ^ (-55 : ℤ) * 4 := by gcongr
    _ = 2 ^ (-53 : ℤ) := by norm_num
    _ ≤ _ := hbound

end Exponents

end Platform

/-! ## Places -/

/-- Values and a bandwidth for which no step of the density leaves the range of doubles. -/
structure IsModerate (values : List Float) (bandwidth : Float) : Prop where
  small : ∀ v ∈ values, Bounded v 900
  count : values.length ≤ 2 ^ 50
  width : Bounded bandwidth 900
  wide : 2 ^ (-900 : ℤ) ≤ real bandwidth

theorem isDouble_two_pow_mul {r : ℝ} (hr : IsDouble r) (k : ℕ) : IsDouble (2 ^ k * r) := by
  obtain ⟨m, e, hm, he, rfl⟩ := hr
  refine ⟨m, k + e, hm, by omega, ?_⟩
  rw [zpow_two_add, zpow_natCast]
  ring

theorem real_three : real 3 = 3 := by
  have hparts : parts 3 = .finite .positive 6755399441055744 (-51) (by decide) := rfl
  rw [real_of_parts hparts]
  norm_num

section Places

variable {values : List Float} {h : Float} (hne : values ≠ []) (hm : IsModerate values h)
include hm

theorem IsModerate.pos : 0 < real h :=
  (zpow_two_pos _).trans_le hm.wide

theorem bounded_margin : Bounded (3 * h) 902 :=
  (Bounded.mul (a := 2) ⟨rfl, by rw [real_three]; norm_num⟩ hm.width (by norm_num)).mono
    (by norm_num)

theorem margin_bounds : 0 ≤ real (3 * h) ∧ real (3 * h) ≤ 2 ^ 2 * real h := by
  have hrounds := rounds_mul (x := 3) rfl hm.width.isFinite
  rw [real_three] at hrounds
  have hpos := hm.pos
  rw [hrounds.real_of_isFinite (bounded_margin hm).isFinite]
  exact ⟨nearest_nonneg (by linarith),
    nearest_le (isDouble_two_pow_mul (isDouble_real hm.width.isFinite) 2) (by linarith)⟩

include hne

theorem bounded_least : Bounded (least values) 900 :=
  hm.small _ (least_mem hne fun v hv => (hm.small v hv).isFinite)

theorem bounded_start : Bounded (gridStart values h) 903 :=
  ((bounded_least hne hm).mono (by norm_num)).sub (bounded_margin hm) (by norm_num)

theorem bounded_range : Bounded (gridRange values h) 904 := by
  have hgreatest : Bounded (greatest values) 902 :=
    (hm.small _ (greatest_mem hne fun v hv => (hm.small v hv).isFinite)).mono (by norm_num)
  exact (hgreatest.add (bounded_margin hm) (by norm_num)).sub (bounded_start hne hm) (by norm_num)

theorem bounded_step {points : ℕ} (hpoints : 1 < points) (hcount : points ≤ 2 ^ 6) :
    Bounded (gridRange values h / Float.ofNat (points - 1)) 904 := by
  obtain ⟨hfinite, hreal⟩ := exact_ofNat (n := points - 1) (by omega)
  refine (bounded_range hne hm).div (b := 0) hfinite ?_ (by norm_num)
  rw [hreal, pow_zero, one_mul, Nat.abs_cast]
  exact_mod_cast (by omega : 1 ≤ points - 1)

theorem bounded_place {points i : ℕ} (hpoints : 1 < points) (hcount : points ≤ 2 ^ 6)
    (hi : i < points) : Bounded (gridPlace values h points i) 911 :=
  ((bounded_start hne hm).mono (by norm_num)).add
    (((Bounded.ofNat (a := 6) (by omega) (by norm_num)).mul (bounded_step hne hm hpoints hcount)
      (by norm_num)).mono (by norm_num)) (by norm_num)

/-- The grid starts at most eight bandwidths away from the least value. -/
theorem abs_start_sub_le : |real (gridStart values h) - real (least values)| ≤ 2 ^ 3 * real h := by
  have hlow := bounded_least hne hm
  obtain ⟨hmargin, hfour⟩ := margin_bounds hm
  have hrounds := rounds_sub hlow.isFinite (bounded_margin hm).isFinite
  have herror := abs_nearest_sub_le_abs_sub (r := real (least values) - real (3 * h))
    (isDouble_real hlow.isFinite)
  rw [sub_sub_cancel, abs_of_nonneg hmargin] at herror
  rw [gridStart, hrounds.real_of_isFinite (bounded_start hne hm).isFinite]
  rw [abs_le] at herror ⊢
  constructor <;> linarith

theorem real_place_zero {points : ℕ} (hpoints : 1 < points) (hcount : points ≤ 2 ^ 6) :
    real (gridPlace values h points 0) = real (gridStart values h) := by
  have hstart := bounded_start hne hm
  have hstep := rounds_mul (x := Float.ofNat 0) rfl (bounded_step hne hm hpoints hcount).isFinite
  rw [(exact_ofNat (Nat.zero_le _)).2, Nat.cast_zero, zero_mul] at hstep
  obtain ⟨hfinite, hzero⟩ := hstep.exact isDouble_zero (by rw [abs_zero]; exact limit_pos)
  have hplace := rounds_add hstart.isFinite hfinite
  rw [hzero, add_zero] at hplace
  exact (hplace.exact (isDouble_real hstart.isFinite) (abs_real_lt hstart.isFinite)).2

/-- The kernel of the first place over the least value is not lost. -/
theorem bounded_first {points : ℕ} (hpoints : 1 < points) (hcount : points ≤ 2 ^ 6) :
    Bounded ((gridPlace values h points 0 - least values) / h) 3 := by
  have hplace := bounded_place hne hm hpoints hcount (Nat.zero_lt_of_lt hpoints)
  have hlow := bounded_least hne hm
  have hpos := hm.pos
  have hfar := rounds_sub hplace.isFinite hlow.isFinite
  rw [real_place_zero hne hm hpoints hcount] at hfar
  have hlimit : 2 ^ 3 * real h < limit :=
    calc
      2 ^ 3 * real h ≤ 2 ^ 3 * 2 ^ 900 := by
        gcongr
        exact (le_abs_self _).trans hm.width.within
      _ = 2 ^ 903 := by rw [← pow_add]
      _ < limit := pow_lt_limit (by norm_num)
  obtain ⟨hfinite, hwithin⟩ := hfar.bounded
    (isDouble_two_pow_mul (isDouble_real hm.width.isFinite) 3) hlimit (abs_start_sub_le hne hm)
  refine .of_rounds (rounds_div hfinite hm.width.isFinite hpos.ne') ?_ (by norm_num)
  rwa [abs_div, abs_of_pos hpos, div_le_iff₀ hpos]

end Places

/-! ## Heights -/

namespace Platform

section Heights

variable {p : Platform} (hp : p.IsFaithful) {values : List Float} {h : Float} (hne : values ≠ [])
  (hm : IsModerate values h)
include hm

theorem total_bounds (hne : values ≠ []) :
    Bounded (size values * h) 950 ∧ 2 ^ (-900 : ℤ) ≤ real (size values * h) := by
  have hsize : Bounded (size values) 50 := .ofNat hm.count (by norm_num)
  have htotal := hsize.mul hm.width (by norm_num)
  refine ⟨htotal, ?_⟩
  rw [(rounds_mul hsize.isFinite hm.width.isFinite).real_of_isFinite htotal.isFinite]
  refine le_nearest (isDouble_zpow (by norm_num)) (hm.wide.trans ?_)
  have hreal : real (size values) = values.length := (exact_ofNat (hm.count.trans (by norm_num))).2
  rw [hreal]
  refine le_mul_of_one_le_left hm.pos.le ?_
  exact_mod_cast List.length_pos_iff.mpr hne

include hp

theorem kernel_bounds {y : Float} (hy : Bounded y 911) :
    ∀ k ∈ values.map fun x => p.gaussian ((y - x) / h), Bounded k 0 ∧ 0 ≤ real k := by
  refine List.forall_mem_map.mpr fun x hx => gaussian_bounds hp ?_
  have hfar := hy.sub ((hm.small x hx).mono (by norm_num)) (by norm_num)
  exact isNaN_div (isNaN_of_isFinite hfar.isFinite) hm.width.isFinite hm.pos.ne'

theorem sum_bounds {y : Float} (hy : Bounded y 911) :
    Bounded (sum (values.map fun x => p.gaussian ((y - x) / h))) 50 ∧
      0 ≤ real (sum (values.map fun x => p.gaussian ((y - x) / h))) := by
  have hkernels := kernel_bounds hp hm hy
  have hlength := hm.count
  exact ⟨bounded_sum (fun k hk => (hkernels k hk).1) (by rwa [List.length_map]) (by norm_num)
    (by norm_num), sum_nonneg (fun k hk => (hkernels k hk).1) (fun k hk => (hkernels k hk).2)
      (by rw [List.length_map]; omega) (by norm_num)⟩

include hne

theorem height_bounds {y : Float} (hy : Bounded y 911) :
    (p.height values h y).isFinite = true ∧ 0 ≤ real (p.height values h y) := by
  obtain ⟨hsum, hnonneg⟩ := sum_bounds hp hm hy
  obtain ⟨htotal, hlow⟩ := total_bounds hm hne
  have hpos : 0 < real (size values * h) := (zpow_two_pos _).trans_le hlow
  have hwide : 1 ≤ 2 ^ 900 * |real (size values * h)| := by
    rw [abs_of_pos hpos]
    calc
      (1 : ℝ) = 2 ^ 900 * 2 ^ (-900 : ℤ) := by norm_num
      _ ≤ _ := mul_le_mul_of_nonneg_left hlow (by positivity)
  exact ⟨(hsum.div htotal.isFinite hwide (by norm_num)).isFinite,
    (rounds_div hsum.isFinite htotal.isFinite hpos.ne').nonneg (div_nonneg hnonneg hpos.le)⟩

/-- The curve does not vanish at the first place. -/
theorem height_first_pos {points : ℕ} (hpoints : 1 < points) (hcount : points ≤ 2 ^ 6) :
    0 < real (p.height values h (gridPlace values h points 0)) := by
  have hplace := bounded_place hne hm hpoints hcount (Nat.zero_lt_of_lt hpoints)
  have hkernels := kernel_bounds hp hm hplace
  obtain ⟨hsum, -⟩ := sum_bounds hp hm hplace
  obtain ⟨htotal, hlow⟩ := total_bounds hm hne
  have hpos : 0 < real (size values * h) := (zpow_two_pos _).trans_le hlow
  have hleast := least_mem hne fun v hv => (hm.small v hv).isFinite
  have hkernel := List.mem_map_of_mem (f := fun x => p.gaussian
    ((gridPlace values h points 0 - x) / h)) hleast
  have hstart : (0 : Float) ≤ -0.0 := by decide +kernel
  -- No kernel is negative, so the sum is at least the kernel over the least value.
  have hbelow := (le_foldl_add hstart fun k hk =>
    ⟨(hkernels k hk).1.isFinite, (real_le_real_iff rfl (hkernels k hk).1.isFinite).mpr
      (by rw [real_zero]; exact (hkernels k hk).2)⟩).2 _ hkernel
  have hlarge : 2 ^ (-55 : ℤ) ≤ real (sum (values.map fun x =>
      p.gaussian ((gridPlace values h points 0 - x) / h))) :=
    (le_gaussian hp (bounded_first hne hm hpoints hcount)).trans
      ((real_le_real_iff (hkernels _ hkernel).1.isFinite hsum.isFinite).mp hbelow)
  have hquotient : 2 ^ (-1005 : ℤ) ≤ real (p.height values h (gridPlace values h points 0)) := by
    rw [height, (rounds_div hsum.isFinite htotal.isFinite hpos.ne').real_of_isFinite
      (height_bounds hp hne hm hplace).1]
    refine le_nearest (isDouble_zpow (by norm_num)) ?_
    rw [le_div_iff₀ hpos]
    calc
      (2 : ℝ) ^ (-1005 : ℤ) * real (size values * h) ≤ 2 ^ (-1005 : ℤ) * 2 ^ 950 := by
        gcongr
        exact (le_abs_self _).trans htotal.within
      _ = 2 ^ (-1005 + 950 : ℤ) := by rw [zpow_two_add, ← zpow_natCast]; rfl
      _ = 2 ^ (-55 : ℤ) := by norm_num
      _ ≤ _ := hlarge
  exact (zpow_two_pos _).trans_le hquotient

end Heights

end Platform

/-! ## Scaling -/

/-- Picking the lesser or the greater number again and again bounds all of them. -/
theorem foldl_pick_bounds {pick : Float → Float → Float} {R : Float → Float → Prop}
    (hrefl : ∀ a : Float, a.isNaN = false → R a a) (htrans : ∀ {a b c}, R a b → R b c → R a c)
    (hpick : ∀ a b : Float, a.isNaN = false → b.isNaN = false →
      (pick a b).isNaN = false ∧ R (pick a b) a ∧ R (pick a b) b)
    {values : List Float} {first : Float} (hfirst : first.isNaN = false)
    (hvalues : ∀ v ∈ values, v.isNaN = false) :
    R (values.foldl pick first) first ∧ ∀ v ∈ values, R (values.foldl pick first) v := by
  induction values generalizing first with
  | nil => exact ⟨hrefl first hfirst, nofun⟩
  | cons v rest ih =>
      obtain ⟨hv, hrest⟩ := List.forall_mem_cons.mp hvalues
      obtain ⟨hnumber, hleft, hright⟩ := hpick first v hfirst hv
      obtain ⟨hstart, hothers⟩ := ih hnumber hrest
      exact ⟨htrans hstart hleft, List.forall_mem_cons.mpr ⟨htrans hstart hright, hothers⟩⟩

theorem le_foldl_greater {values : List Float} {first : Float} (hfirst : first.isNaN = false)
    (hvalues : ∀ v ∈ values, v.isNaN = false) : ∀ v ∈ values, v ≤ values.foldl greater first :=
  (foldl_pick_bounds (R := fun a b => b ≤ a) (fun _ => le_self)
    (fun hab hbc => le_of_le_of_le hbc hab)
    (fun _ _ ha hb => by
      obtain ⟨-, hleft, hright⟩ := greater_spec ha hb
      exact ⟨((le_iff _ _).mp hleft).2.1, hleft, hright⟩) hfirst hvalues).2

theorem foldl_lesser_le {values : List Float} {first : Float} (hfirst : first.isNaN = false)
    (hvalues : ∀ v ∈ values, v.isNaN = false) : ∀ v ∈ values, values.foldl lesser first ≤ v :=
  (foldl_pick_bounds (R := fun a b => a ≤ b) (fun _ => le_self) le_of_le_of_le
    (fun _ _ ha hb => by
      obtain ⟨-, hleft, hright⟩ := lesser_spec ha hb
      exact ⟨((le_iff _ _).mp hleft).1, hleft, hright⟩) hfirst hvalues).2

/-- All in the unit interval, and one of them is one. -/
def IsNormalised (heights : List Float) : Prop :=
  (∀ d ∈ heights, 0 ≤ d ∧ d ≤ 1) ∧ 1 ∈ heights

/-- Heights that are finite, not negative and not all zero are scaled into the unit interval, and
the greatest to one. -/
theorem isNormalised_scaledToPeak {heights : List Float}
    (hheights : ∀ d ∈ heights, d.isFinite = true ∧ 0 ≤ real d) {first : Float}
    (hmem : first ∈ heights) (hpos : 0 < real first) : IsNormalised (scaledToPeak heights) := by
  have hzero : (0 : Float).isNaN = false := rfl
  have habove := le_foldl_greater hzero fun d hd => isNaN_of_isFinite (hheights d hd).1
  have hpick : heights.foldl greater 0 ∈ 0 :: heights := foldl_pick_mem greater_cases 0
  unfold scaledToPeak
  dsimp only
  -- The peak is zero or one of the heights, and it is positive because one height is.
  generalize heights.foldl greater 0 = peak at habove hpick
  have hfinite : peak.isFinite = true := by
    rcases List.mem_cons.mp hpick with rfl | hpeak
    · rfl
    · exact (hheights peak hpeak).1
  have hlarge : 0 < real peak :=
    hpos.trans_le ((real_le_real_iff (hheights first hmem).1 hfinite).mp (habove first hmem))
  have hpeak : peak ∈ heights := by
    rcases List.mem_cons.mp hpick with rfl | hpeak
    · exact absurd hlarge (by rw [real_zero]; exact lt_irrefl 0)
    · exact hpeak
  rw [if_pos ((real_lt_real_iff rfl hfinite).mpr (by rwa [real_zero]))]
  constructor
  · refine List.forall_mem_map.mpr fun d hd => ?_
    obtain ⟨hdfinite, hdnonneg⟩ := hheights d hd
    have hle := (real_le_real_iff hdfinite hfinite).mp (habove d hd)
    obtain ⟨hquotient, hlow, hhigh⟩ := (rounds_div hdfinite hfinite hlarge.ne').between
      isDouble_zero isDouble_one (neg_lt_zero.mpr limit_pos) one_lt_limit
      (div_nonneg hdnonneg hlarge.le) ((div_le_one hlarge).mpr hle)
    rw [real_le_real_iff rfl hquotient, real_le_real_iff hquotient rfl, real_zero, real_unit]
    exact ⟨hlow, hhigh⟩
  · have hquotient := rounds_div hfinite hfinite hlarge.ne'
    rw [div_self hlarge.ne'] at hquotient
    obtain ⟨hone, hreal⟩ := hquotient.exact isDouble_one (by rw [abs_one]; exact one_lt_limit)
    have hsame : peak / peak = 1 := eq_of_pos
      ((real_lt_real_iff rfl hone).mpr (by rw [real_zero, hreal]; exact one_pos))
      (by decide +kernel) hone rfl (by rw [hreal, real_unit])
    exact List.mem_map.mpr ⟨peak, hpeak, hsame⟩

theorem has_grid {values : List Float} (hne : values ≠ []) {points : ℕ} (hpoints : 1 < points) :
    ¬(values.isEmpty || points = 0) = true := by
  simp [hne, Nat.ne_of_gt (Nat.zero_lt_of_lt hpoints)]

/-- The heights of moderate data are normalised. -/
theorem Platform.isNormalised_density {p : Platform} (hp : p.IsFaithful) {values : List Float}
    {h : Float} (hne : values ≠ []) (hm : IsModerate values h) {points : ℕ} (hpoints : 1 < points)
    (hcount : points ≤ 2 ^ 6) : IsNormalised (p.density values h points).density := by
  unfold density
  have hsome := has_grid hne hpoints
  rw [if_neg hsome]
  split_ifs
  · refine ⟨?_, List.mem_singleton_self 1⟩
    intro d hd
    rw [List.mem_singleton.mp hd]
    decide +kernel
  · refine isNormalised_scaledToPeak ?_ ?_ (height_first_pos hp hne hm hpoints hcount)
    · refine List.forall_mem_map.mpr fun y hy => ?_
      obtain ⟨i, hi, rfl⟩ := List.mem_map.mp hy
      exact height_bounds hp hne hm (bounded_place hne hm hpoints hcount (List.mem_range.mp hi))
    · exact List.mem_map_of_mem (List.mem_map_of_mem
        (List.mem_range.mpr (Nat.zero_lt_of_lt hpoints)))

/-! ## Points -/

/-- The data and three bandwidths on both sides of them, as computed, leave no room for a grid. -/
def LeavesNoRoom (values : List Float) (bandwidth : Float) : Prop :=
  gridRange values bandwidth ≤ 0

def Density.points (curve : Density) : List (Float × Float) :=
  curve.grid.zip curve.density

theorem length_scaledToPeak (heights : List Float) :
    (scaledToPeak heights).length = heights.length := by
  unfold scaledToPeak
  dsimp only
  split_ifs
  · rw [List.length_map]
  · rfl

/-- The curve has a place for each height. -/
theorem map_snd_points (p : Platform) (values : List Float) (h : Float) (points : ℕ) :
    (p.density values h points).points.map Prod.snd = (p.density values h points).density := by
  refine List.map_snd_zip ?_
  unfold Platform.density
  split_ifs
  · rfl
  · rfl
  · exact (length_scaledToPeak _).trans_le (List.length_map _).le

section Points

variable {p : Platform} {values : List Float} {h : Float} {points : ℕ} (hne : values ≠ [])
  (hpoints : 1 < points)
include hne hpoints

theorem points_of_room (hroom : ¬LeavesNoRoom values h) :
    ((p.density values h points).points).length = points := by
  have hsome := has_grid hne hpoints
  have hrange : ¬(gridRange values h ≤ 0 || points = 1) = true := by
    have hpositive : ¬gridRange values h ≤ 0 := hroom
    simp [hpositive, Nat.ne_of_gt hpoints]
  rw [Platform.density, if_neg hsome, if_neg hrange, Density.points]
  simp only [List.length_zip, length_scaledToPeak, List.length_map, List.length_range, min_self]

theorem points_of_no_room (hroom : LeavesNoRoom values h) :
    (p.density values h points).points = [(least values, 1)] := by
  have hsome := has_grid hne hpoints
  have hrange : (gridRange values h ≤ 0 || points = 1) = true := by
    have hnone : gridRange values h ≤ 0 := hroom
    simp [hnone]
  rw [Platform.density, if_neg hsome, if_pos hrange]
  rfl

end Points

/-! ## Room for a grid -/

theorem LeavesNoRoom.ends {values : List Float} {h : Float} (hnone : LeavesNoRoom values h) :
    greatest values + 3 * h ≤ least values - 3 * h :=
  le_of_difference hnone

/-- A bandwidth that is not negative leaves room between different values. -/
theorem room_of_nonneg {values : List Float} (hvalues : ∀ v ∈ values, v.isFinite = true) {h : Float}
    (hh : h.isNaN = false → 0 ≤ h) {a b : Float} (ha : a ∈ values) (hb : b ∈ values) (hlt : a < b) :
    ¬LeavesNoRoom values h := by
  intro hnone
  have hne : values ≠ [] := List.ne_nil_of_mem ha
  have hnumbers : ∀ v ∈ values, v.isNaN = false := fun v hv => isNaN_of_isFinite (hvalues v hv)
  -- The margin on both sides is not negative, and so the ends are as far apart as the values.
  have hends := hnone.ends
  have hmargin := (isNaN_of_add ((le_iff _ _).mp hends).1).2
  have hthree : (0 : Float) ≤ 3 := by decide +kernel
  have hnonneg : 0 ≤ 3 * h := mul_nonneg_of_isNaN hthree (hh (isNaN_of_mul hmargin).2) hmargin
  have hhigh := (steps_add (hvalues _ (greatest_mem hne hvalues)) hmargin).up hnonneg
  have hlow := (steps_sub (hvalues _ (least_mem hne hvalues)) hmargin).down
    ((neg_nonpos_iff _).mpr hnonneg)
  have hleast : least values ≤ a :=
    foldl_lesser_le ((lt_iff _ _).mp (lt_infinity (hvalues a ha))).2.1 hnumbers a ha
  have hgreatest : b ≤ greatest values :=
    le_foldl_greater ((lt_iff _ _).mp (neg_infinity_lt (hvalues b hb))).1 hnumbers b hb
  have hle : b ≤ a := le_of_le_of_le hgreatest (le_of_le_of_le hhigh (le_of_le_of_le hends
    (le_of_le_of_le hlow hleast)))
  exact (not_le_iff (hnumbers b hb) (hnumbers a ha)).mpr hlt hle

section Room

variable {p : Platform} (hp : p.IsFaithful) {values : List Float}
include hp

theorem scaled_nonneg {scale : Float} (hmany : ¬values.length < 2) (hscale : ¬scale ≤ 0)
    (hnumber : (0.9 * scale * p.pow (size values) (-0.2)).isNaN = false) :
    0 ≤ 0.9 * scale * p.pow (size values) (-0.2) := by
  obtain ⟨hproduct, hpower⟩ := isNaN_of_mul hnumber
  have hscaleNumber := (isNaN_of_mul hproduct).2
  have hpos : 0 ≤ scale := le_of_lt' ((not_le_iff hscaleNumber rfl).mp hscale)
  have hsize : 0 < size values := by
    have hone : (1 : Float) ≤ size values := (rounds_ofNat values.length).ge rfl (by
      rw [real_unit]
      exact_mod_cast (by omega : 1 ≤ values.length))
    refine (not_le_iff ((le_iff _ _).mp hone).2.1 rfl).mp fun hle => ?_
    exact absurd (le_of_le_of_le hone hle) (by decide +kernel)
  have hpowerPos : 0 ≤ p.pow (size values) (-0.2) :=
    le_of_not_lt hpower rfl (hp.pow_nonneg _ _ hsize)
  exact mul_nonneg_of_isNaN (mul_nonneg_of_isNaN (by decide +kernel) hpos hproduct) hpowerPos
    hnumber

/-- The bandwidth may not be a number, but it is not negative. -/
theorem Platform.bandwidth_nonneg (hnumber : (p.bandwidth values).isNaN = false) :
    0 ≤ p.bandwidth values := by
  unfold bandwidth at hnumber ⊢
  dsimp only at hnumber ⊢
  split_ifs at hnumber ⊢ with hfew hrange hscale hscale
  · decide +kernel
  · decide +kernel
  · exact scaled_nonneg hp hfew hscale hnumber
  · decide +kernel
  · exact scaled_nonneg hp hfew hscale hnumber

/-- Different values leave room for a grid. -/
theorem room_of_lt (hvalues : ∀ v ∈ values, v.isFinite = true) {a b : Float} (ha : a ∈ values)
    (hb : b ∈ values) (hlt : a < b) : ¬LeavesNoRoom values (p.bandwidth values) :=
  room_of_nonneg hvalues (Platform.bandwidth_nonneg hp) ha hb hlt

end Room

end Statistics

end ChartCompiler
