import ChartCompiler.Decimal.Dyadic
import ChartCompiler.Proofs.Double.Unpacked
import Mathlib.Order.Compare

/-!
# Values of doubles

A double that is not NaN stands for a real number or an infinity. Comparisons compare
these values, and are false as soon as one side is NaN.
-/

namespace ChartCompiler.Double

open Float.Model Float.Model.UnpackedFloat

def parts (x : Float) : UnpackedFloat :=
  x.toModel.unpack

/-- The number that a double stands for. NaN stands for none and is given zero. -/
noncomputable def value (x : Float) : EReal :=
  unpackedValue (parts x)

noncomputable def real (x : Float) : ℝ :=
  (value x).toReal

theorem canonical_parts (x : Float) : Canonical (parts x) :=
  (canonical_unpack x.toModel).1

theorem packed_parts (x : Float) : packed (parts x) = parts x :=
  (canonical_unpack x.toModel).2

theorem parts_pack {u : UnpackedFloat} (hu : Canonical u) :
    parts (.ofModel (Float.Model.pack u)) = packed u :=
  unpack_pack hu

/-- All finite doubles lie below it. -/
noncomputable def limit : ℝ :=
  twoPow 1024

theorem limit_pos : 0 < limit :=
  zpow_two_pos 1024

theorem zpow_lt_limit {e : ℤ} (he : e < 1024) : (2 : ℝ) ^ e < limit :=
  zpow_lt_zpow_right₀ one_lt_two he

theorem one_lt_limit : 1 < limit := by
  have hpow := zpow_lt_limit (e := 0) (by norm_num)
  rwa [zpow_zero] at hpow

theorem isNaN_eq (x : Float) : x.isNaN = (parts x).isNaN :=
  rfl

theorem isFinite_eq (x : Float) : x.isFinite = (parts x).isFinite :=
  rfl

theorem isNaN_of_isFinite {x : Float} (hx : x.isFinite = true) : x.isNaN = false := by
  rw [isFinite_eq] at hx
  rw [isNaN_eq]
  cases hparts : parts x with
  | notANumber =>
      rw [hparts] at hx
      exact nomatch hx
  | infinity s => rfl
  | zero s => rfl
  | finite s m e hpos => rfl

theorem magnitude_nonneg (m : ℕ) (e : ℤ) : (0 : ℝ) ≤ m * 2 ^ e :=
  mul_nonneg m.cast_nonneg (zpow_two_pos e).le

/-- What the parts of a finite double are. -/
theorem parts_cases {x : Float} (hx : x.isFinite = true) :
    (∃ s, parts x = .zero s ∧ real x = 0) ∨
      ∃ s m e hpos, parts x = .finite s m e hpos ∧ real x = signed s (m * 2 ^ e) ∧
        m < 2 ^ 53 ∧ -1074 ≤ e ∧ (2 ^ 52 ≤ m ∨ e = -1074) ∧ e ≤ 971 := by
  have hcanonical := canonical_parts x
  have hpacked := packed_parts x
  rw [isFinite_eq] at hx
  unfold real value
  cases hparts : parts x with
  | notANumber =>
      rw [hparts] at hx
      exact nomatch hx
  | infinity s =>
      rw [hparts] at hx
      exact nomatch hx
  | zero s => exact .inl ⟨s, rfl, rfl⟩
  | finite s m e hpos =>
      rw [hparts] at hcanonical hpacked
      obtain ⟨hm, he, hlow⟩ := hcanonical
      refine .inr ⟨s, m, e, hpos, rfl, rfl, hm, he, hlow, ?_⟩
      by_contra hlarge
      simp [packed, if_pos (not_le.mp hlarge)] at hpacked

theorem value_of_isFinite {x : Float} (hx : x.isFinite = true) : value x = real x := by
  rcases parts_cases hx with ⟨s, hparts, hreal⟩ | ⟨s, m, e, hpos, hparts, hreal, -⟩
  · rw [hreal, value, hparts]
    rfl
  · rw [hreal, value, hparts]
    rfl

theorem real_of_parts {x : Float} {m : ℕ} {e : ℤ} {hm : 0 < m}
    (hx : parts x = .finite .positive m e hm) : real x = m * 2 ^ e := by
  rw [real, value, hx, unpackedValue, EReal.toReal_coe]
  rfl

theorem isDouble_real {x : Float} (hx : x.isFinite = true) : IsDouble (real x) := by
  rcases parts_cases hx with ⟨s, -, hreal⟩ | ⟨s, m, e, -, -, hreal, hm, he, -⟩
  · rw [hreal]
    exact ⟨0, 0, by norm_num, by norm_num, by norm_num⟩
  · have hdouble : IsDouble (m * 2 ^ e) :=
      ⟨m, e, by rw [Nat.abs_cast]; exact_mod_cast hm, he, by push_cast; ring⟩
    rw [hreal]
    cases s with
    | negative => exact hdouble.neg
    | positive => exact hdouble

theorem abs_real_lt {x : Float} (hx : x.isFinite = true) : |real x| < limit := by
  rcases parts_cases hx with ⟨s, -, hreal⟩ | ⟨s, m, e, -, -, hreal, hm, -, -, he⟩
  · rw [hreal, abs_zero]
    exact zpow_two_pos _
  · rw [hreal, abs_signed, abs_of_nonneg (magnitude_nonneg m e)]
    calc
      (m : ℝ) * 2 ^ e < 2 ^ (53 : ℤ) * 2 ^ e :=
        mul_lt_mul_of_pos_right (by exact_mod_cast hm) (zpow_two_pos e)
      _ = 2 ^ (53 + e) := (zpow_two_add 53 e).symm
      _ ≤ limit := zpow_two_le (by omega)

/-! ## Rounded results -/

/-- The nearest double, or an infinity if that is too large. -/
noncomputable def rounded (r : ℝ) : EReal :=
  if limit ≤ nearest r then ⊤
  else if nearest r ≤ -limit then ⊥
  else (nearest r : ℝ)

/-- A double is the rounded result of an exact computation. -/
structure Rounds (x : Float) (r : ℝ) : Prop where
  isNaN : x.isNaN = false
  value : value x = rounded r
  isFinite : |nearest r| < limit → x.isFinite = true

theorem rounded_of_lt {r : ℝ} (hr : |nearest r| < limit) :
    rounded r = (nearest r : ℝ) := by
  obtain ⟨hlow, hhigh⟩ := abs_lt.mp hr
  rw [rounded, if_neg hhigh.not_ge, if_neg hlow.not_ge]

theorem rounds_of_holds {u : UnpackedFloat} {r : ℝ} (hu : Holds u (nearest r)) :
    Rounds (.ofModel (Float.Model.pack u)) r := by
  have hparts := parts_pack hu.canonical
  obtain ⟨hfinite, hcanonical, hvalue⟩ := hu
  cases u with
  | notANumber => exact nomatch hfinite
  | infinity s => exact nomatch hfinite
  | zero s =>
      have hzero : nearest r = 0 := EReal.coe_injective hvalue.symm
      refine ⟨by rw [isNaN_eq, hparts]; rfl, ?_, fun _ => by rw [isFinite_eq, hparts]; rfl⟩
      rw [rounded_of_lt (by rw [hzero, abs_zero]; exact limit_pos), hzero, Double.value,
        hparts]
      rfl
  | finite s m e hpos =>
      obtain ⟨hm, -, hlow⟩ := hcanonical
      have hnearest : nearest r = signed s (m * 2 ^ e) := EReal.coe_injective hvalue.symm
      have hmagnitude : |nearest r| = m * 2 ^ e := by
        rw [hnearest, abs_signed, abs_of_nonneg (magnitude_nonneg m e)]
      rcases le_or_gt e 971 with hfits | hover
      · have hsmall : |nearest r| < limit := by
          rw [hmagnitude]
          calc
            (m : ℝ) * 2 ^ e < 2 ^ (53 : ℤ) * 2 ^ e :=
              mul_lt_mul_of_pos_right (by exact_mod_cast hm) (zpow_two_pos e)
            _ = 2 ^ (53 + e) := (zpow_two_add 53 e).symm
            _ ≤ limit := zpow_two_le (by omega)
        rw [packed, if_neg hfits.not_gt] at hparts
        refine ⟨by rw [isNaN_eq, hparts]; rfl, ?_,
          fun _ => by rw [isFinite_eq, hparts]; rfl⟩
        rw [rounded_of_lt hsmall, hnearest, Double.value, hparts]
        rfl
      · have hlarge : limit ≤ |nearest r| := by
          rw [hmagnitude]
          calc
            limit ≤ 2 ^ (52 + e) := zpow_two_le (by omega)
            _ = 2 ^ (52 : ℤ) * 2 ^ e := zpow_two_add 52 e
            _ ≤ m * 2 ^ e := by
              have hbits : 2 ^ 52 ≤ m := by omega
              exact mul_le_mul_of_nonneg_right (by exact_mod_cast hbits)
                (zpow_two_pos e).le
        rw [packed, if_pos hover] at hparts
        refine ⟨by rw [isNaN_eq, hparts]; rfl, ?_, fun hsmall => absurd hsmall hlarge.not_gt⟩
        rw [Double.value, hparts, rounded]
        have hpow := limit_pos
        have hpositive := magnitude_nonneg m e
        rw [hmagnitude] at hlarge
        cases s with
        | positive =>
            rw [hnearest, if_pos (by exact hlarge)]
            rfl
        | negative =>
            simp only [hnearest, signed]
            rw [if_neg (by linarith), if_pos (by linarith)]
            rfl

namespace Rounds

variable {x : Float} {r : ℝ}

/-- A result that is not too large is the nearest double. -/
theorem real_eq (hx : Rounds x r) (hr : |nearest r| < limit) : real x = nearest r := by
  rw [real, hx.value, rounded_of_lt hr, EReal.toReal_coe]

/-- The exact result decides whether the double is finite. -/
theorem abs_nearest_lt (hx : Rounds x r) (hfinite : x.isFinite = true) : |nearest r| < limit := by
  have hvalue := hx.value
  rw [value_of_isFinite hfinite, rounded] at hvalue
  split_ifs at hvalue with hhigh hlow
  · exact absurd hvalue (EReal.coe_ne_top _)
  · exact absurd hvalue (EReal.coe_ne_bot _)
  · exact abs_lt.mpr ⟨not_le.mp hlow, not_le.mp hhigh⟩

theorem real_of_isFinite (hx : Rounds x r) (hfinite : x.isFinite = true) : real x = nearest r :=
  hx.real_eq (hx.abs_nearest_lt hfinite)

/-- Exact results that are doubles are not rounded at all. -/
theorem exact (hx : Rounds x r) (hr : IsDouble r) (hlimit : |r| < limit) :
    x.isFinite = true ∧ real x = r := by
  have hnearest := nearest_of_isDouble hr
  rw [← hnearest] at hlimit
  exact ⟨hx.isFinite hlimit, (hx.real_eq hlimit).trans hnearest⟩

/-- Bounds of the exact result that are doubles hold for the double as well. -/
theorem between (hx : Rounds x r) {low high : ℝ} (hlow : IsDouble low) (hhigh : IsDouble high)
    (hover : -limit < low) (hunder : high < limit) (hlr : low ≤ r) (hrh : r ≤ high) :
    x.isFinite = true ∧ low ≤ real x ∧ real x ≤ high := by
  have hnlow := le_nearest hlow hlr
  have hnhigh := nearest_le hhigh hrh
  have hfits : |nearest r| < limit := abs_lt.mpr ⟨by linarith, by linarith⟩
  rw [hx.real_eq hfits]
  exact ⟨hx.isFinite hfits, hnlow, hnhigh⟩

theorem bounded (hx : Rounds x r) {d : ℝ} (hd : IsDouble d) (hlimit : d < limit)
    (hr : |r| ≤ d) : x.isFinite = true ∧ |real x| ≤ d := by
  obtain ⟨hlow, hhigh⟩ := abs_le.mp hr
  obtain ⟨hfinite, hreal⟩ := hx.between hd.neg hd (neg_lt_neg hlimit) hlimit hlow hhigh
  exact ⟨hfinite, abs_le.mpr hreal⟩

/-- Results of larger computations bound results of smaller ones. -/
theorem dominated (hx : Rounds x r) {y : Float} {s : ℝ} (hy : Rounds y s)
    (hfinite : y.isFinite = true) (hrs : |r| ≤ s) : x.isFinite = true ∧ |real x| ≤ real y := by
  have hsfits := hy.abs_nearest_lt hfinite
  have hmono : |nearest r| ≤ nearest s := by
    obtain ⟨hlow, hhigh⟩ := abs_le.mp hrs
    refine abs_le.mpr ⟨?_, nearest_mono hhigh⟩
    rw [← nearest_neg]
    exact nearest_mono hlow
  have hrfits := hmono.trans_lt (abs_lt.mp hsfits).2
  exact ⟨hx.isFinite hrfits, by rwa [hx.real_eq hrfits, hy.real_eq hsfits]⟩

theorem nonneg (hx : Rounds x r) (hr : 0 ≤ r) : 0 ≤ real x := by
  have hnearest := nearest_nonneg hr
  rw [real, hx.value, rounded]
  split_ifs
  · rw [EReal.toReal_top]
  · rw [EReal.toReal_bot]
  · exact hnearest

end Rounds

/-! ## Order -/

theorem magnitude_lt {m n : ℕ} {d e : ℤ} (hm : m < 2 ^ 53) (hn : 2 ^ 52 ≤ n ∨ e = -1074)
    (hd : -1074 ≤ d) (hde : d < e) : (m : ℝ) * 2 ^ d < n * 2 ^ e := by
  have hbits : 2 ^ 52 ≤ n := by omega
  calc
    (m : ℝ) * 2 ^ d < 2 ^ (53 : ℤ) * 2 ^ d :=
      mul_lt_mul_of_pos_right (by exact_mod_cast hm) (zpow_two_pos d)
    _ = 2 ^ (53 + d) := (zpow_two_add 53 d).symm
    _ ≤ 2 ^ (52 + e) := zpow_two_le (by omega)
    _ = 2 ^ (52 : ℤ) * 2 ^ e := zpow_two_add 52 e
    _ ≤ n * 2 ^ e := mul_le_mul_of_nonneg_right (by exact_mod_cast hbits) (zpow_two_pos e).le

/-- In canonical form magnitudes are ordered by exponent first. -/
theorem compare_magnitude {m n : ℕ} {d e : ℤ} (hm : m < 2 ^ 53) (hn : n < 2 ^ 53)
    (hd : -1074 ≤ d) (he : -1074 ≤ e) (hmd : 2 ^ 52 ≤ m ∨ d = -1074)
    (hne : 2 ^ 52 ≤ n ∨ e = -1074) :
    (compare d e).then (compare m n) = compare ((m : ℝ) * 2 ^ d) (n * 2 ^ e) := by
  rcases lt_trichotomy d e with hlt | rfl | hgt
  · rw [compare_lt_iff_lt.mpr hlt]
    exact (compare_lt_iff_lt.mpr (magnitude_lt hm hne hd hlt)).symm
  · rw [compare_eq_iff_eq.mpr rfl]
    rcases lt_trichotomy m n with hlt | rfl | hgt
    · rw [compare_lt_iff_lt.mpr hlt]
      exact (compare_lt_iff_lt.mpr (mul_lt_mul_of_pos_right (by exact_mod_cast hlt)
        (zpow_two_pos d))).symm
    · rw [compare_eq_iff_eq.mpr rfl]
      exact (compare_eq_iff_eq.mpr rfl).symm
    · rw [compare_gt_iff_gt.mpr hgt]
      exact (compare_gt_iff_gt.mpr (mul_lt_mul_of_pos_right (by exact_mod_cast hgt)
        (zpow_two_pos d))).symm
  · rw [compare_gt_iff_gt.mpr hgt]
    exact (compare_gt_iff_gt.mpr (magnitude_lt hn hmd he hgt)).symm

theorem compare_coe (a b : ℝ) : compare (a : EReal) b = compare a b := by
  rcases lt_trichotomy a b with hlt | rfl | hgt
  · rw [compare_lt_iff_lt.mpr hlt, compare_lt_iff_lt.mpr (EReal.coe_lt_coe_iff.mpr hlt)]
  · rw [compare_eq_iff_eq.mpr rfl, compare_eq_iff_eq.mpr rfl]
  · rw [compare_gt_iff_gt.mpr hgt, compare_gt_iff_gt.mpr (EReal.coe_lt_coe_iff.mpr hgt)]

theorem compare_neg (a b : ℝ) : compare (-a) (-b) = (compare a b).swap := by
  rcases lt_trichotomy a b with hlt | rfl | hgt
  · rw [compare_lt_iff_lt.mpr hlt, compare_gt_iff_gt.mpr (neg_lt_neg hlt)]
    rfl
  · rw [compare_eq_iff_eq.mpr rfl, compare_eq_iff_eq.mpr rfl]
    rfl
  · rw [compare_gt_iff_gt.mpr hgt, compare_lt_iff_lt.mpr (neg_lt_neg hgt)]
    rfl

theorem some_lt {a b : EReal} (hab : a < b) : some .lt = some (compare a b) :=
  congrArg some (compare_lt_iff_lt.mpr hab).symm

theorem some_gt {a b : EReal} (hab : b < a) : some .gt = some (compare a b) :=
  congrArg some (compare_gt_iff_gt.mpr hab).symm

theorem some_eq (a : EReal) : some .eq = some (compare a a) :=
  congrArg some (compare_eq_iff_eq.mpr rfl).symm

theorem unpackedValue_pos {m : ℕ} (hm : 0 < m) (e : ℤ) :
    0 < unpackedValue (.finite .positive m e hm) :=
  EReal.coe_pos.mpr (mul_pos (by exact_mod_cast hm) (zpow_two_pos e))

theorem unpackedValue_neg {m : ℕ} (hm : 0 < m) (e : ℤ) :
    unpackedValue (.finite .negative m e hm) < 0 :=
  EReal.coe_neg'.mpr (neg_neg_of_pos (mul_pos (by exact_mod_cast hm) (zpow_two_pos e)))

/-- The comparison of two doubles in canonical form is that of their values. -/
theorem compare_unpacked {u v : UnpackedFloat} (hu : Canonical u) (hv : Canonical v)
    (hunum : u.isNaN = false) (hvnum : v.isNaN = false) :
    UnpackedFloat.compare u v = some (compare (unpackedValue u) (unpackedValue v)) := by
  cases u with
  | notANumber => exact nomatch hunum
  | infinity s =>
      cases v with
      | notANumber => exact nomatch hvnum
      | infinity t =>
          cases s <;> cases t
          · exact some_eq _
          · exact some_lt bot_lt_top
          · exact some_gt bot_lt_top
          · exact some_eq _
      | zero t =>
          cases s
          · exact some_lt EReal.bot_lt_zero
          · exact some_gt EReal.zero_lt_top
      | finite t n e hn =>
          cases s
          · exact some_lt (EReal.bot_lt_coe _)
          · exact some_gt (EReal.coe_lt_top _)
  | zero s =>
      cases v with
      | notANumber => exact nomatch hvnum
      | infinity t =>
          cases t
          · exact some_gt EReal.bot_lt_zero
          · exact some_lt EReal.zero_lt_top
      | zero t => exact some_eq 0
      | finite t n e hn =>
          cases t
          · exact some_gt (unpackedValue_neg hn e)
          · exact some_lt (unpackedValue_pos hn e)
  | finite s m d hm =>
      cases v with
      | notANumber => exact nomatch hvnum
      | infinity t =>
          cases t <;> cases s
          · exact some_gt (EReal.bot_lt_coe _)
          · exact some_gt (EReal.bot_lt_coe _)
          · exact some_lt (EReal.coe_lt_top _)
          · exact some_lt (EReal.coe_lt_top _)
      | zero t =>
          cases s
          · exact some_lt (unpackedValue_neg hm d)
          · exact some_gt (unpackedValue_pos hm d)
      | finite t n e hn =>
          obtain ⟨hmbits, hd, hmd⟩ := hu
          obtain ⟨hnbits, he, hne⟩ := hv
          have hmagnitude := compare_magnitude hmbits hnbits hd he hmd hne
          cases s <;> cases t
          · refine congrArg some ?_
            rw [hmagnitude, ← compare_neg]
            exact (compare_coe _ _).symm
          · exact some_lt ((unpackedValue_neg hm d).trans (unpackedValue_pos hn e))
          · exact some_gt ((unpackedValue_neg hn e).trans (unpackedValue_pos hm d))
          · refine congrArg some ?_
            rw [hmagnitude]
            exact (compare_coe _ _).symm

/-- NaN compares to nothing, and other doubles compare as their values do. -/
theorem compare_parts (x y : Float) :
    UnpackedFloat.compare (parts x) (parts y) =
      if x.isNaN = false ∧ y.isNaN = false then some (compare (value x) (value y))
      else none := by
  split_ifs with hnumbers
  · exact compare_unpacked (canonical_parts x) (canonical_parts y) hnumbers.1 hnumbers.2
  · cases hx : parts x with
    | notANumber => rfl
    | _ =>
        cases hy : parts y with
        | notANumber => rfl
        | _ =>
            refine absurd ⟨?_, ?_⟩ hnumbers
            · rw [isNaN_eq, hx]
              rfl
            · rw [isNaN_eq, hy]
              rfl

theorem le_iff (x y : Float) :
    x ≤ y ↔ x.isNaN = false ∧ y.isNaN = false ∧ value x ≤ value y := by
  have hle : x ≤ y ↔ UnpackedFloat.le (parts x) (parts y) = true := by
    simp only [LE.le, Float.le, decide_eq_true_eq]
    rfl
  rw [hle, UnpackedFloat.le, compare_parts]
  split_ifs with hnumbers
  · rw [Option.any_some, ← Ordering.ne_gt_iff_isLE]
    have hvalues := compare_le_iff_le (a := value x) (b := value y)
    exact ⟨fun hle => ⟨hnumbers.1, hnumbers.2, hvalues.mp hle⟩,
      fun hle => hvalues.mpr hle.2.2⟩
  · exact ⟨fun hnone => (nomatch hnone),
      fun hvalues => absurd ⟨hvalues.1, hvalues.2.1⟩ hnumbers⟩

theorem lt_iff (x y : Float) :
    x < y ↔ x.isNaN = false ∧ y.isNaN = false ∧ value x < value y := by
  have hlt : x < y ↔ UnpackedFloat.lt (parts x) (parts y) = true := by
    simp only [LT.lt, Float.lt, decide_eq_true_eq]
    rfl
  rw [hlt, UnpackedFloat.lt, compare_parts]
  split_ifs with hnumbers
  · rw [beq_iff_eq, Option.some_inj, compare_lt_iff_lt]
    exact ⟨fun hlt => ⟨hnumbers.1, hnumbers.2, hlt⟩, fun hlt => hlt.2.2⟩
  · exact ⟨fun hnone => (nomatch hnone),
      fun hvalues => absurd ⟨hvalues.1, hvalues.2.1⟩ hnumbers⟩

end ChartCompiler.Double
