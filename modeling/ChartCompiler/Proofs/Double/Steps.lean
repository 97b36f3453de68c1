import ChartCompiler.Proofs.Double.Selection

/-!
# Steps from finite doubles

Adding a number to a finite double leads up or down by the number's sign, or nowhere, even if
the number or the sum is infinite. Rounding is monotone, and infinities lie beyond it.
-/

namespace ChartCompiler.Double

open Float.Model Float.Model.UnpackedFloat

theorem rounded_mono {r s : ℝ} (hrs : r ≤ s) : rounded r ≤ rounded s := by
  have hnearest := nearest_mono hrs
  unfold rounded
  split_ifs with hr hs hs hs hs hr'
  all_goals first
    | exact le_top
    | exact bot_le
    | exact EReal.coe_le_coe_iff.mpr hnearest
    | linarith [limit_pos]

theorem value_eq_rounded {x : Float} (hx : x.isFinite = true) : value x = rounded (real x) := by
  rw [value_of_isFinite hx, rounded_of_lt, nearest_real hx]
  rw [nearest_real hx]
  exact abs_real_lt hx

/-- A double below the exact result is below the rounded one, even if that is infinite. -/
theorem Rounds.ge {x y : Float} {r : ℝ} (hy : Rounds y r) (hx : x.isFinite = true)
    (hle : real x ≤ r) : x ≤ y := by
  refine (le_iff x y).mpr ⟨isNaN_of_isFinite hx, hy.isNaN, ?_⟩
  rw [value_eq_rounded hx, hy.value]
  exact rounded_mono hle

theorem Rounds.le {x y : Float} {r : ℝ} (hy : Rounds y r) (hx : x.isFinite = true)
    (hle : r ≤ real x) : y ≤ x := by
  refine (le_iff y x).mpr ⟨hy.isNaN, isNaN_of_isFinite hx, ?_⟩
  rw [value_eq_rounded hx, hy.value]
  exact rounded_mono hle

theorem value_zero : value 0 = 0 := by
  rw [value_of_isFinite rfl, real_zero, EReal.coe_zero]

theorem not_le_iff {x y : Float} (hx : x.isNaN = false) (hy : y.isNaN = false) :
    ¬x ≤ y ↔ y < x := by
  rw [le_iff, lt_iff, ← not_le]
  tauto

/-- The result lies above or below a finite double, according to the sign of what is added. -/
structure Steps (x s y : Float) : Prop where
  isNaN : y.isNaN = false
  up : 0 ≤ s → x ≤ y
  down : s ≤ 0 → y ≤ x

theorem isNaN_of_parts {x : Float} {t : Sign} (hx : parts x = .infinity t) :
    x.isNaN = false := by
  rw [isNaN_eq, hx]
  rfl

theorem value_top {x : Float} (hx : parts x = .infinity .positive) : value x = ⊤ := by
  rw [value, hx]
  rfl

theorem value_bot {x : Float} (hx : parts x = .infinity .negative) : value x = ⊥ := by
  rw [value, hx]
  rfl

theorem parts_pack_infinity (t : Sign) :
    parts (.ofModel (Float.Model.pack (.infinity t))) = .infinity t := by
  cases t <;> rfl

/-- Infinite steps end at the infinity that they are. -/
theorem Steps.of_infinity {x s y : Float} {t : Sign} (hx : x.isNaN = false)
    (hs : parts s = .infinity t) (hy : parts y = .infinity t) : Steps x s y := by
  have hynumber := isNaN_of_parts hy
  cases t with
  | positive =>
      refine ⟨hynumber, fun _ => (le_iff x y).mpr ⟨hx, hynumber, ?_⟩, fun hneg => ?_⟩
      · rw [value_top hy]
        exact le_top
      · obtain ⟨-, -, hle⟩ := (le_iff s 0).mp hneg
        rw [value_top hs, value_zero, top_le_iff] at hle
        exact absurd hle EReal.zero_ne_top
  | negative =>
      refine ⟨hynumber, fun hpos => ?_, fun _ => (le_iff y x).mpr ⟨hynumber, hx, ?_⟩⟩
      · obtain ⟨-, -, hle⟩ := (le_iff 0 s).mp hpos
        rw [value_bot hs, value_zero, le_bot_iff] at hle
        exact absurd hle EReal.zero_ne_bot
      · rw [value_bot hy]
        exact bot_le

theorem steps_add {x s : Float} (hx : x.isFinite = true) (hs : s.isNaN = false) :
    Steps x s (x + s) := by
  by_cases hfinite : s.isFinite = true
  · have hrounds := rounds_add hx hfinite
    refine ⟨hrounds.isNaN, fun hpos => hrounds.ge hx ?_, fun hneg => hrounds.le hx ?_⟩
    · rw [real_le_real_iff rfl hfinite, real_zero] at hpos
      linarith
    · rw [real_le_real_iff hfinite rfl, real_zero] at hneg
      linarith
  · obtain ⟨t, hparts⟩ := parts_of_infinite hs hfinite
    have hadd : UnpackedFloat.add Format.binary64 (parts x) (parts s) = .infinity t := by
      rw [hparts]
      rcases parts_cases hx with ⟨u, hxparts, -⟩ | ⟨u, n, e, hn, hxparts, -⟩
      · rw [hxparts]
        rfl
      · rw [hxparts]
        rfl
    have hsum : parts (x + s) = .infinity t := by
      change parts (.ofModel (Float.Model.pack
        (UnpackedFloat.add Format.binary64 (parts x) (parts s)))) = _
      rw [hadd, parts_pack_infinity]
    exact .of_infinity (isNaN_of_isFinite hx) hparts hsum

/-- One and a half times a number has its sign. -/
theorem steps_mul {s : Float} (hs : s.isNaN = false) : Steps 0 s (1.5 * s) := by
  have hfactor : parts 1.5 = .finite .positive (3 * 2 ^ 51) (-52) (by decide) := rfl
  by_cases hfinite : s.isFinite = true
  · have hrounds := rounds_mul (x := 1.5) rfl hfinite
    have hreal := real_of_parts hfactor
    norm_num at hreal
    rw [hreal] at hrounds
    refine ⟨hrounds.isNaN, fun hpos => hrounds.ge rfl ?_, fun hneg => hrounds.le rfl ?_⟩
    · rw [real_le_real_iff rfl hfinite, real_zero] at hpos
      rw [real_zero]
      linarith
    · rw [real_le_real_iff hfinite rfl, real_zero] at hneg
      rw [real_zero]
      linarith
  · obtain ⟨t, hparts⟩ := parts_of_infinite hs hfinite
    have hproduct : parts (1.5 * s) = .infinity t := by
      change parts (.ofModel (Float.Model.pack
        (UnpackedFloat.mul Format.binary64 (parts 1.5) (parts s)))) = _
      rw [hparts, hfactor]
      cases t <;> rfl
    exact .of_infinity rfl hparts hproduct

theorem isNaN_neg (x : Float) : (-x).isNaN = x.isNaN := by
  rw [isNaN_eq, isNaN_eq, parts_neg]
  cases parts x <;> rfl

theorem neg_nonneg_iff (x : Float) : 0 ≤ -x ↔ x ≤ 0 := by
  rw [le_iff, le_iff, isNaN_neg, value_neg, value_zero, EReal.neg_nonneg]
  tauto

theorem neg_nonpos_iff (x : Float) : -x ≤ 0 ↔ 0 ≤ x := by
  rw [le_iff, le_iff, isNaN_neg, value_neg, value_zero, EReal.neg_le_zero]
  tauto

theorem steps_sub {x s : Float} (hx : x.isFinite = true) (hs : s.isNaN = false) :
    Steps x (-s) (x - s) := by
  rw [sub_eq_add_neg]
  exact steps_add hx (by rwa [isNaN_neg])

end ChartCompiler.Double
