import ChartCompiler.Proofs.Double.Bounds
import ChartCompiler.Proofs.Double.Infinities
import Mathlib.Analysis.SpecialFunctions.Pow.Real

/-!
# Functions of the platform

The exponential and the power come from the platform. Statements about what is computed with them
hold for any functions that do what is documented of the platform's, with room for large errors.
Functions that round the exact results are among them.
-/

namespace ChartCompiler

open Double

namespace Statistics

/-- The functions that are taken from the platform. -/
structure Platform where
  exp : Float → Float
  pow : Float → Float → Float

namespace Platform

/-- The functions that programs are compiled with. -/
def compiled : Platform :=
  ⟨Float.exp, Float.pow⟩

/-- What is documented of the exponential and the power, up to errors of half a result. -/
structure IsFaithful (p : Platform) : Prop where
  exp_infinity : p.exp (-infinity) = 0
  exp_near : ∀ u : Float, u.isFinite = true → u ≤ 0 → (p.exp u).isFinite = true ∧ 0 ≤ p.exp u ∧
    |real (p.exp u) - Real.exp (real u)| ≤ Real.exp (real u) / 2 + finest
  pow_nonneg : ∀ x y : Float, 0 < x → ¬p.pow x y < 0
  pow_near : ∀ x y : Float, x.isFinite = true → y.isFinite = true → 0 < x →
    2 ^ (-1000 : ℤ) ≤ real x ^ real y → real x ^ real y ≤ 2 ^ (1000 : ℤ) →
      (p.pow x y).isFinite = true ∧
        |real (p.pow x y) - real x ^ real y| ≤ real x ^ real y / 2

end Platform

/-! ## Rounding the exact results -/

theorem exists_rounds (r : ℝ) : ∃ x : Float, Rounds x r := by
  obtain ⟨m, e, -, -, hshape⟩ := isDouble_nearest r
  have hholds := holds_normalize m e .positive
  rw [← hshape, nearest_of_isDouble (isDouble_nearest r)] at hholds
  exact ⟨_, rounds_of_holds hholds⟩

/-- The double that an exact result is rounded to. -/
noncomputable def closest (r : ℝ) : Float :=
  (exists_rounds r).choose

theorem rounds_closest (r : ℝ) : Rounds (closest r) r :=
  (exists_rounds r).choose_spec

theorem abs_closest_sub_le {r m : ℝ} (hfinite : (closest r).isFinite = true) (hr : |r| ≤ m)
    (hm : 2 ^ (-1022 : ℤ) ≤ m) : |real (closest r) - r| ≤ m / 2 ^ 53 := by
  rw [(rounds_closest r).real_of_isFinite hfinite]
  exact abs_nearest_sub_le_of_abs_le hr hm

namespace Platform

/-- The functions whose results are rounded once. -/
noncomputable def rounded : Platform where
  exp u := if u.isFinite then closest (Real.exp (real u)) else if u < 0 then 0 else u
  pow x y := closest (real x ^ real y)

theorem isFaithful_rounded : rounded.IsFaithful where
  exp_infinity := by
    have hinfinite : ¬(-infinity).isFinite = true := by decide +kernel
    have hnegative : -infinity < 0 := by decide +kernel
    rw [rounded]
    dsimp only
    rw [if_neg hinfinite, if_pos hnegative]
  exp_near := by
    intro u hu hle
    rw [real_le_real_iff hu rfl, real_zero] at hle
    have hpos := Real.exp_pos (real u)
    have hone : Real.exp (real u) ≤ 1 := Real.exp_le_one_iff.mpr hle
    have hresult : rounded.exp u = closest (Real.exp (real u)) := if_pos hu
    obtain ⟨hfinite, hnonneg, -⟩ := (rounds_closest (Real.exp (real u))).between isDouble_zero
      isDouble_one (neg_lt_zero.mpr limit_pos) one_lt_limit hpos.le hone
    rw [hresult]
    refine ⟨hfinite, (real_le_real_iff rfl hfinite).mpr (by rwa [real_zero]), ?_⟩
    have hleast : (2 : ℝ) ^ (-1022 : ℤ) = 2 ^ 52 * finest := by
      rw [finest, twoPow, ← zpow_natCast, ← zpow_two_add]
      norm_num
    have herror := abs_closest_sub_le hfinite
      (m := Real.exp (real u) + 2 ^ (-1022 : ℤ)) (by
        rw [abs_of_pos hpos]
        linarith [zpow_two_pos (-1022)]) (by linarith)
    rw [hleast] at herror
    refine herror.trans ?_
    have hfinest : 0 < finest := zpow_two_pos _
    linarith
  pow_nonneg := by
    intro x y hx
    have hreal : 0 ≤ real x := by
      have hvalue := ((lt_iff 0 x).mp hx).2.2
      rw [value_zero] at hvalue
      exact EReal.toReal_nonneg hvalue.le
    have hle : 0 ≤ rounded.pow x y := (rounds_closest _).ge rfl (by
      rw [real_zero]
      exact Real.rpow_nonneg hreal _)
    intro hlt
    exact (not_le_iff rfl ((lt_iff _ _).mp hlt).1).mpr hlt hle
  pow_near := by
    intro x y _ _ _ hlow hhigh
    have hpos : 0 < real x ^ real y := (zpow_two_pos _).trans_le hlow
    obtain ⟨hfinite, -⟩ := (rounds_closest (real x ^ real y)).bounded
      (isDouble_zpow (e := 1000) (by norm_num)) (zpow_lt_limit (by norm_num))
        (by rwa [abs_of_pos hpos])
    refine ⟨hfinite, (abs_closest_sub_le hfinite (abs_of_pos hpos).le
      ((zpow_two_le (by norm_num)).trans hlow)).trans ?_⟩
    exact div_le_div_of_nonneg_left hpos.le two_pos (by norm_num)

end Platform

end Statistics

end ChartCompiler
