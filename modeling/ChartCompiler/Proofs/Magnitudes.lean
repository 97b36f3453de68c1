import ChartCompiler.Plot.ErrorBar
import ChartCompiler.Proofs.Double.Bounds
import ChartCompiler.Proofs.Numbers
import ChartCompiler.Statistics.Regression

/-!
# Statistics of numbers of moderate size

Sums, squares and products of finite cells may overflow. From values of at most `2 ^ e`
in magnitude every statistic is finite as long as its own bound stays below the largest
double: means keep the bound, spreads add a few powers of two to it, and a fitted line
needs the third power. Lists have at most `2 ^ 50` items.
-/

namespace ChartCompiler

open Double

namespace Statistics

/-! ## Sums -/

/-- Every small multiple of the number is a double. -/
def Scales (r : ℝ) : Prop :=
  ∀ n : ℕ, n ≤ 2 ^ 53 → IsDouble (n * r) ∧ |n * r| < limit

theorem scales_zero : Scales 0 := by
  intro n _
  rw [mul_zero, abs_zero]
  exact ⟨isDouble_zero, limit_pos⟩

theorem scales_pow {e : ℕ} (he : e + 53 < 1024) : Scales (2 ^ e) := by
  intro n hn
  constructor
  · have hdouble := isDouble_mul_zpow (m := n) (e := e) (by rw [Nat.abs_cast]; exact_mod_cast hn)
      (by omega)
    exact_mod_cast hdouble
  · rw [abs_of_nonneg (by positivity)]
    calc
      (n : ℝ) * 2 ^ e ≤ 2 ^ 53 * 2 ^ e := by
        gcongr
        exact_mod_cast hn
      _ = 2 ^ (e + 53) := by rw [← pow_add, add_comm]
      _ < limit := pow_lt_limit he

theorem Scales.neg {r : ℝ} (hr : Scales r) : Scales (-r) := by
  intro n hn
  obtain ⟨hdouble, hlimit⟩ := hr n hn
  rw [mul_neg, abs_neg]
  exact ⟨hdouble.neg, hlimit⟩

section Sums

variable {values : List Float} {low high : ℝ} (hlow : Scales low) (hhigh : Scales high)
  (hvalues : ∀ v ∈ values, v.isFinite = true ∧ low ≤ real v ∧ real v ≤ high)
include hlow hhigh hvalues

/-- A running sum of `n` values lies between the sums of as many least and greatest ones. -/
theorem foldl_add_between {acc : Float} {n : ℕ}
    (hacc : acc.isFinite = true ∧ n * low ≤ real acc ∧ real acc ≤ n * high)
    (hcount : n + values.length ≤ 2 ^ 53) :
    (values.foldl (· + ·) acc).isFinite = true ∧
      ↑(n + values.length) * low ≤ real (values.foldl (· + ·) acc) ∧
      real (values.foldl (· + ·) acc) ≤ ↑(n + values.length) * high := by
  induction values generalizing acc n with
  | nil => exact hacc
  | cons v rest ih =>
      rw [List.length_cons] at hcount ⊢
      obtain ⟨hfinite, hvlow, hvhigh⟩ := hvalues v List.mem_cons_self
      obtain ⟨hsum, hslow, hshigh⟩ := hacc
      obtain ⟨hdlow, hllow⟩ := hlow (n + 1) (by omega)
      obtain ⟨hdhigh, hlhigh⟩ := hhigh (n + 1) (by omega)
      have hnext : (acc + v).isFinite = true ∧ ↑(n + 1) * low ≤ real (acc + v) ∧
          real (acc + v) ≤ ↑(n + 1) * high := by
        refine (rounds_add hsum hfinite).between hdlow hdhigh (abs_lt.mp hllow).1
          (abs_lt.mp hlhigh).2 ?_ ?_
        · push_cast
          linarith
        · push_cast
          linarith
      rw [show n + (rest.length + 1) = n + 1 + rest.length by omega] at hcount ⊢
      exact ih (fun w hw => hvalues w (List.mem_cons_of_mem v hw)) hnext hcount

theorem sum_between (hcount : values.length ≤ 2 ^ 53) :
    (sum values).isFinite = true ∧ values.length * low ≤ real (sum values) ∧
      real (sum values) ≤ values.length * high := by
  have hzero : real (-0.0) = 0 := by
    rw [real_neg]
    exact (congrArg _ real_zero).trans neg_zero
  have hstart : (-0.0 : Float).isFinite = true ∧ ((0 : ℕ) : ℝ) * low ≤ real (-0.0) ∧
      real (-0.0) ≤ ((0 : ℕ) : ℝ) * high := by
    rw [hzero, Nat.cast_zero, zero_mul, zero_mul]
    exact ⟨rfl, le_rfl, le_rfl⟩
  have hsum := foldl_add_between hlow hhigh hvalues hstart (by rwa [zero_add])
  rw [zero_add] at hsum
  exact hsum

end Sums

section Bounds

variable {values : List Float} {e : ℕ} (hvalues : ∀ v ∈ values, Bounded v e)
include hvalues

theorem abs_sum_le (hcount : values.length ≤ 2 ^ 53) (he : e + 53 < 1024) :
    (sum values).isFinite = true ∧ |real (sum values)| ≤ values.length * 2 ^ e := by
  have hscales := scales_pow he
  obtain ⟨hfinite, hlow, hhigh⟩ := sum_between hscales.neg hscales
    (fun v hv => ⟨(hvalues v hv).isFinite, abs_le.mp (hvalues v hv).within⟩) hcount
  refine ⟨hfinite, abs_le.mpr ⟨?_, hhigh⟩⟩
  rwa [← mul_neg]

theorem bounded_sum {k : ℕ} (hcount : values.length ≤ 2 ^ k) (hk : k ≤ 53) (he : e + 53 < 1024) :
    Bounded (sum values) (e + k) := by
  obtain ⟨hfinite, hsum⟩ := abs_sum_le hvalues
    (hcount.trans (Nat.pow_le_pow_right two_pos hk)) he
  refine ⟨hfinite, hsum.trans ?_⟩
  rw [pow_add, mul_comm]
  gcongr
  exact_mod_cast hcount

/-- Sums of squares are not negative. -/
theorem sum_nonneg (hnonneg : ∀ v ∈ values, 0 ≤ real v) (hcount : values.length ≤ 2 ^ 53)
    (he : e + 53 < 1024) : 0 ≤ real (sum values) := by
  have hsum := (sum_between scales_zero (scales_pow he) (fun v hv =>
    ⟨(hvalues v hv).isFinite, hnonneg v hv, (abs_le.mp (hvalues v hv).within).2⟩) hcount).2.1
  rwa [mul_zero] at hsum

/-- A mean is no larger than what it is the mean of. -/
theorem bounded_mean (hne : values ≠ []) (hcount : values.length ≤ 2 ^ 53)
    (he : e + 53 < 1024) : Bounded (sum values / size values) e := by
  obtain ⟨hsum, hwithin⟩ := abs_sum_le hvalues hcount he
  obtain ⟨hsize, hreal⟩ := exact_ofNat hcount
  change (size values).isFinite = true at hsize
  change real (size values) = values.length at hreal
  have hpos : (0 : ℝ) < values.length := by
    exact_mod_cast List.length_pos_iff.mpr hne
  refine .of_rounds (rounds_div hsum hsize (by rw [hreal]; exact hpos.ne')) ?_ (by omega)
  rw [hreal, abs_div, Nat.abs_cast, div_le_iff₀ hpos, mul_comm]
  exact hwithin

theorem bounded_mean? {mean : Float} (hmean : mean? values = some mean)
    (hcount : values.length ≤ 2 ^ 53) (he : e + 53 < 1024) : Bounded mean e := by
  unfold mean? at hmean
  split_ifs at hmean with hempty
  obtain rfl := Option.some.inj hmean
  exact bounded_mean hvalues (fun hnil => hempty (List.isEmpty_iff.mpr hnil)) hcount he

/-! ## Spread -/

/-- The mean of squares is one power of two less per value than their sum, at most. -/
theorem bounded_standardDeviation (hcount : values.length ≤ 2 ^ 50)
    (he : 2 * e + 55 < 1024) : Bounded (standardDeviation values) (e + 26) := by
  unfold standardDeviation
  split_ifs with hfew
  · exact .zero _
  · have hne : values ≠ [] := by
      rintro rfl
      exact hfew (by decide)
    have hmean := bounded_mean hvalues hne (by omega) (by omega)
    let squares := values.map fun v =>
      (v - sum values / size values) * (v - sum values / size values)
    have hsquare : ∀ s ∈ squares, Bounded s (2 * e + 2) ∧ 0 ≤ real s := by
      intro s hs
      obtain ⟨v, hv, rfl⟩ := List.mem_map.mp hs
      have hdistance := (hvalues v hv).sub hmean (by omega)
      exact ⟨(hdistance.mul hdistance (by omega)).mono (by omega),
        (rounds_mul hdistance.isFinite hdistance.isFinite).nonneg (mul_self_nonneg _)⟩
    have hlength : squares.length ≤ 2 ^ 50 := by rwa [List.length_map]
    have hsum := bounded_sum (fun s hs => (hsquare s hs).1) hlength (by norm_num) (by omega)
    have hnonneg := sum_nonneg (fun s hs => (hsquare s hs).1) (fun s hs => (hsquare s hs).2)
      (by omega) (by omega)
    obtain ⟨hfreedom, hreal⟩ := exact_ofNat (n := values.length - 1) (by omega)
    have hone : (1 : ℝ) ≤ (values.length - 1 : ℕ) := by
      exact_mod_cast (by omega : 1 ≤ values.length - 1)
    have hvariance := hsum.div (b := 0) hfreedom
      (by rw [hreal, pow_zero, one_mul, Nat.abs_cast]; exact hone) (by omega)
    refine Bounded.sqrt (hvariance.mono (by omega)) ?_ (by omega)
    refine (rounds_div hsum.isFinite hfreedom ?_).nonneg (div_nonneg hnonneg ?_)
    · rw [hreal]
      linarith
    · rw [hreal]
      linarith

theorem bounded_standardError (hcount : values.length ≤ 2 ^ 50)
    (he : 2 * e + 55 < 1024) : Bounded (standardError values) (e + 26) := by
  unfold standardError
  split_ifs with hempty
  · exact .zero _
  · obtain ⟨hsize, hreal⟩ := exact_ofNat (n := values.length) (by omega)
    have hpos : (1 : ℝ) ≤ values.length := by
      have hne : values ≠ [] := fun hnil => hempty (List.isEmpty_iff.mpr hnil)
      exact_mod_cast List.length_pos_iff.mpr hne
    have hroot := rounds_sqrt hsize (by rw [hreal]; linarith)
    rw [hreal] at hroot
    obtain ⟨hfinite, hone, -⟩ := hroot.between isDouble_one (isDouble_pow 50)
      (by linarith [limit_pos]) (pow_lt_limit (by norm_num)) (Real.one_le_sqrt.mpr hpos)
      (Real.sqrt_le_iff.mpr ⟨by positivity, by
        calc
          (values.length : ℝ) ≤ 2 ^ 50 := by exact_mod_cast hcount
          _ ≤ (2 ^ 50) ^ 2 := by norm_num⟩)
    exact (bounded_standardDeviation hvalues hcount he).div (b := 0) hfinite
      (by rw [pow_zero, one_mul]; exact hone.trans (le_abs_self _)) (by omega)

/-! ## Quantiles -/

theorem bounded_percentile (hcount : values.length ≤ 2 ^ 50) {p : Float}
    (hp : p.isFinite = true) (he : e + 1 < 1024) : Bounded (percentile values p) (e + 1) := by
  have hget := forall_getD hvalues (.zero e)
  have hlength : values.length < 2 ^ 63 := by omega
  rcases percentile_cases hlength hp with ⟨i, heq⟩ | ⟨i, j, v, w, hv, hw, heq⟩
  · rw [heq]
    exact (hget i).mono (by omega)
  · rw [heq]
    have hfirst := (hget i).mul_part hv.isFinite hv.nonneg hv.le_one (by omega)
    have hsecond := (hget j).mul_part hw.isFinite hw.nonneg hw.le_one (by omega)
    exact hfirst.add hsecond he

omit hvalues in
theorem bounded_of_mem_sorted (hvalues : ∀ v ∈ values, Bounded v e) :
    ∀ v ∈ sorted values, Bounded v e :=
  fun v hv => hvalues v ((sorted_perm values).mem_iff.mp hv)

theorem bounded_quantile (hcount : values.length ≤ 2 ^ 50) {p : Float}
    (hp : p.isFinite = true) (he : e + 1 < 1024) :
    Bounded (percentile (sorted values) p) (e + 1) :=
  bounded_percentile (bounded_of_mem_sorted hvalues) (by rwa [length_sorted]) hp he

/-- Whiskers and outliers are values, or else quartiles. -/
theorem bounded_boxSummary {box : BoxSummary} (hbox : BoxSummary.of? values = some box)
    (hcount : values.length ≤ 2 ^ 50) (he : e + 1 < 1024) :
    ∀ v ∈ [box.lowerWhisker, box.lowerQuartile, box.median, box.upperQuartile,
      box.upperWhisker] ++ box.outliers, Bounded v (e + 1) := by
  have hdata (v : Float) (hv : v ∈ sorted values) : Bounded v (e + 1) :=
    (bounded_of_mem_sorted hvalues v hv).mono (by omega)
  have hquartile {p : Float} (hp : p.isFinite = true) :=
    bounded_quantile hvalues hcount hp he
  have hfound (data : List Float) (hsub : ∀ v ∈ data, v ∈ sorted values) (test : Float → Bool)
      {other : Float} (hother : Bounded other (e + 1)) :
      Bounded ((data.find? test).getD other) (e + 1) := by
    cases hfind : data.find? test with
    | none => exact hother
    | some v => exact hdata v (hsub v (List.mem_of_find?_eq_some hfind))
  unfold BoxSummary.of? at hbox
  split_ifs at hbox
  obtain rfl := Option.some.inj hbox
  intro v hv
  rcases List.mem_append.mp hv with hbox | hout
  · simp only [List.mem_cons, List.not_mem_nil, or_false] at hbox
    rcases hbox with rfl | rfl | rfl | rfl | rfl
    · exact hfound _ (fun v hv => hv) _ (hquartile rfl)
    · exact hquartile rfl
    · exact hquartile rfl
    · exact hquartile rfl
    · exact hfound _ (fun v hv => List.mem_reverse.mp hv) _ (hquartile rfl)
  · exact hdata v (List.mem_of_mem_filter hout)

end Bounds

/-! ## Least and greatest values -/

theorem lt_infinity {v : Float} (hv : v.isFinite = true) : v < infinity := by
  refine (lt_iff _ _).mpr ⟨isNaN_of_isFinite hv, rfl, ?_⟩
  rw [value_of_isFinite hv]
  exact EReal.coe_lt_top _

theorem neg_infinity_lt {v : Float} (hv : v.isFinite = true) : -infinity < v := by
  refine (lt_iff _ _).mpr ⟨rfl, isNaN_of_isFinite hv, ?_⟩
  rw [value_of_isFinite hv]
  exact EReal.bot_lt_coe _

section Extremes

variable {values : List Float} {pick : Float → Float → Float}
  (hpick : ∀ a b, pick a b = a ∨ pick a b = b)
include hpick

/-- Picking one of two numbers again and again gives one of them all. -/
theorem foldl_pick_mem (first : Float) : values.foldl pick first ∈ first :: values := by
  induction values generalizing first with
  | nil => exact List.mem_singleton_self first
  | cons v rest ih =>
      rcases List.mem_cons.mp (ih (pick first v)) with heq | hrest
      · rw [List.foldl_cons, heq]
        rcases hpick first v with hfirst | hv
        · rw [hfirst]
          exact List.mem_cons_self
        · rw [hv]
          exact List.mem_cons_of_mem first List.mem_cons_self
      · exact List.mem_cons_of_mem first (List.mem_cons_of_mem v hrest)

/-- A start that gives way to every value is not among the results. -/
theorem foldl_pick_mem_of_start {start : Float} (hstart : ∀ v ∈ values, pick start v = v)
    (hne : values ≠ []) : values.foldl pick start ∈ values := by
  cases values with
  | nil => exact absurd rfl hne
  | cons v rest =>
      rw [List.foldl_cons, hstart v List.mem_cons_self]
      exact foldl_pick_mem hpick v

end Extremes

theorem lesser_cases (a b : Float) : lesser a b = a ∨ lesser a b = b := by
  unfold lesser
  split_ifs
  · exact .inr rfl
  · exact .inr rfl
  · exact .inl rfl

theorem greater_cases (a b : Float) : greater a b = a ∨ greater a b = b := by
  unfold greater
  split_ifs
  · exact .inr rfl
  · exact .inr rfl
  · exact .inl rfl

section Extremes

variable {values : List Float} (hne : values ≠ []) (hfinite : ∀ v ∈ values, v.isFinite = true)
include hne hfinite

theorem least_mem : least values ∈ values :=
  foldl_pick_mem_of_start lesser_cases
    (fun v hv => by
      rw [lesser, if_neg (by decide +kernel), if_pos (lt_infinity (hfinite v hv))])
    hne

theorem greatest_mem : greatest values ∈ values :=
  foldl_pick_mem_of_start greater_cases
    (fun v hv => by
      rw [greater, if_neg (by decide +kernel), if_pos (neg_infinity_lt (hfinite v hv))])
    hne

end Extremes

/-! ## Fitted lines -/

theorem real_leastSpread : real leastSpread = 2 ^ (-52 : ℤ) := by
  have hparts : parts leastSpread = .finite .positive (2 ^ 52) (-104) (by decide) := rfl
  rw [real, value, hparts, unpackedValue, EReal.toReal_coe, signed, twoPow]
  norm_num

section Lines

variable {points : List (Float × Float)} {e : ℕ}
  (hpoints : ∀ p ∈ points, Bounded p.1 e ∧ Bounded p.2 e) (hcount : points.length ≤ 2 ^ 50)
  (he : 3 * e + 205 < 1024)
include hpoints hcount he

omit he in
theorem bounded_sum_map {f : Float × Float → Float} {a : ℕ}
    (hf : ∀ p, Bounded p.1 e ∧ Bounded p.2 e → Bounded (f p) a) (ha : a + 53 < 1024) :
    Bounded (sum (points.map f)) (a + 50) :=
  bounded_sum (List.forall_mem_map.mpr fun p hp => hf p (hpoints p hp))
    (by rwa [List.length_map]) (by norm_num) ha

/-- The slope divides by a spread of at least `2 ^ -52`. -/
theorem bounded_fit? {line : Line} (hfit : fit? points = some line) :
    Bounded line.slope (2 * e + 153) ∧ Bounded line.intercept (3 * e + 204) := by
  have hx := bounded_sum_map hpoints hcount (fun _ hp => hp.1) (by omega)
  have hy := bounded_sum_map hpoints hcount (fun _ hp => hp.2) (by omega)
  have hxx := bounded_sum_map hpoints hcount (fun _ hp => hp.1.mul hp.1 (by omega)) (by omega)
  have hxy := bounded_sum_map hpoints hcount (fun _ hp => hp.1.mul hp.2 (by omega)) (by omega)
  have hn : Bounded (Float.ofNat points.length) 50 := .ofNat hcount (by norm_num)
  unfold fit? at hfit
  split_ifs at hfit with hfew
  dsimp only at hfit
  split_ifs at hfit with hflat
  obtain rfl := Option.some.inj hfit
  have hspread := ((hn.mul hxx (by omega)).mono (b := 2 * e + 100) (by omega)).sub
    ((hx.mul hx (by omega)).mono (by omega)) (by omega)
  have hnumerator := ((hn.mul hxy (by omega)).mono (b := 2 * e + 100) (by omega)).sub
    ((hx.mul hy (by omega)).mono (by omega)) (by omega)
  have hwide : 1 ≤ 2 ^ 52 * |real (Float.ofNat points.length *
      sum (points.map fun p => p.1 * p.1) -
      sum (points.map fun p => p.1) * sum (points.map fun p => p.1))| := by
    rw [real_lt_real_iff (by rw [isFinite_abs, hspread.isFinite]) rfl, real_abs,
      real_leastSpread, not_lt] at hflat
    calc
      (1 : ℝ) = 2 ^ 52 * 2 ^ (-52 : ℤ) := by norm_num
      _ ≤ _ := mul_le_mul_of_nonneg_left hflat (by positivity)
  have hmany : (1 : ℝ) ≤ 2 ^ 0 * |real (Float.ofNat points.length)| := by
    rw [(exact_ofNat (by omega)).2, pow_zero, one_mul, Nat.abs_cast]
    exact_mod_cast (by omega : 1 ≤ points.length)
  have hslope := (hnumerator.div hspread.isFinite hwide (by omega)).mono
    (b := 2 * e + 153) (by omega)
  have hrest := ((hy.mono (b := 3 * e + 203) (by omega)).sub
    ((hslope.mul hx (by omega)).mono (by omega)) (by omega))
  exact ⟨hslope, hrest.div hn.isFinite hmany (by omega)⟩

theorem bounded_height {line : Line} (hfit : fit? points = some line) {x : Float}
    (hx : Bounded x e) : Bounded (line.height x) (3 * e + 205) := by
  obtain ⟨hslope, hintercept⟩ := bounded_fit? hpoints hcount he hfit
  exact ((hslope.mul hx (by omega)).mono (by omega)).add hintercept he

end Lines

end Statistics

open Statistics in
/-- Bars end within two spreads of the values, or else at their quartiles. Confidence
intervals are left out, since they rest on logarithms and powers. -/
theorem ErrorBarPoint.bounded_of? {bar : ErrorBar} (hkind : bar.kind ≠ .confidence)
    {category : String} {values : List Float} {e : ℕ} (hvalues : ∀ v ∈ values, Bounded v e)
    (hcount : values.length ≤ 2 ^ 50) (he : 2 * e + 55 < 1024) {p : ErrorBarPoint}
    (hp : of? bar category values = some p) :
    Bounded p.low (e + 27) ∧ Bounded p.high (e + 27) := by
  obtain ⟨center, hcenter, rfl⟩ := Option.map_eq_some_iff.mp hp
  have hmean := (bounded_mean? hvalues hcenter (by omega) (by omega)).mono (b := e + 26) (by omega)
  have hdeviation := bounded_standardDeviation hvalues hcount he
  have herror := bounded_standardError hvalues hcount he
  have hquartile {q : Float} (hq : q.isFinite = true) : Bounded (percentile (sorted values) q)
      (e + 27) :=
    (bounded_quantile hvalues hcount hq (by omega)).mono (by omega)
  cases bar with
  | mk kind level =>
      cases kind with
      | standardError => exact ⟨hmean.sub herror (by omega), hmean.add herror (by omega)⟩
      | standardDeviation =>
          exact ⟨hmean.sub hdeviation (by omega), hmean.add hdeviation (by omega)⟩
      | confidence => exact absurd rfl hkind
      | quartiles => exact ⟨hquartile rfl, hquartile rfl⟩

end ChartCompiler
