import ChartCompiler.Proofs.Double.Scaled
import ChartCompiler.Proofs.Double.Selection

/-!
# The total order of doubles

Ranks are read off the bits. Canonical parts are ordered by exponent first, and so the ranks
of finite doubles follow their numbers. Only the two zeros have one number and two ranks.
-/

namespace ChartCompiler

open Double

namespace Dyadic

/-- Position of a magnitude among all magnitudes. -/
def height (d : Dyadic) : ℤ :=
  (d.exponent + 1074) * 2 ^ 52 + d.significand

/-- The significand has no more bits than a double keeps, and all of them unless the exponent
is the least one. -/
structure Canonical (d : Dyadic) : Prop where
  bits : d.significand < 2 ^ 53
  least : -1074 ≤ d.exponent
  normal : 2 ^ 52 ≤ d.significand ∨ d.exponent = -1074

/-- No two doubles have one rank. -/
theorem rank_injective : Function.Injective rank := by
  intro x y hrank
  have hx : x.toBits.toNat < 2 ^ 64 := x.toBits.toNat_lt
  have hy : y.toBits.toNat < 2 ^ 64 := y.toBits.toNat_lt
  refine Float.toBits_inj.mp (UInt64.toNat_inj.mp ?_)
  unfold rank at hrank
  dsimp only [Nat.pow_eq] at hrank
  split_ifs at hrank <;> omega

/-- Negative numbers are ranked from minus one downwards. -/
theorem rank_of_ofFloat? {x : Float} {d : Dyadic} (hd : ofFloat? x = some d) :
    d.Canonical ∧ rank x = if d.negative then -d.height - 1 else d.height := by
  have hword : x.toBits.toNat < 2 ^ 64 := x.toBits.toNat_lt
  unfold ofFloat? at hd
  unfold rank height
  dsimp only [Nat.pow_eq] at hd ⊢
  generalize x.toBits.toNat = bits at hd hword ⊢
  split_ifs at hd with hfull hzero
  · obtain rfl := Option.some.inj hd
    refine ⟨⟨by dsimp only; omega, le_rfl, .inr rfl⟩, ?_⟩
    simp only [decide_eq_true_eq]
    split_ifs <;> omega
  · obtain rfl := Option.some.inj hd
    refine ⟨⟨by dsimp only; omega, by dsimp only; omega, .inl (Nat.le_add_right _ _)⟩, ?_⟩
    simp only [decide_eq_true_eq]
    split_ifs <;> omega

namespace Canonical

variable {d e : Dyadic}

theorem height_nonneg (hd : d.Canonical) : 0 ≤ d.height := by
  have hleast := hd.least
  unfold height
  omega

theorem magnitude_le (hd : d.Canonical) (he : e.Canonical) (hle : d.height ≤ e.height) :
    (d.significand : ℝ) * 2 ^ d.exponent ≤ e.significand * 2 ^ e.exponent := by
  have hcompare := compare_magnitude hd.bits he.bits hd.least he.least hd.normal he.normal
  obtain ⟨hdbits, hdleast, hdnormal⟩ := hd
  obtain ⟨hebits, heleast, henormal⟩ := he
  rw [← not_lt, ← compare_gt_iff_gt, ← hcompare]
  unfold height at hle
  rcases lt_trichotomy d.exponent e.exponent with hlt | heq | hgt
  · rw [compare_lt_iff_lt.mpr hlt]
    exact nofun
  · have hsignificand : d.significand ≤ e.significand := by
      rw [heq] at hle
      omega
    rw [heq, compare_eq_iff_eq.mpr rfl]
    exact mt compare_gt_iff_gt.mp hsignificand.not_gt
  · omega

end Canonical

/-- Doubles in ascending rank are in ascending order. -/
theorem le_of_rank_le {x y : Float} (hx : x.isFinite = true) (hy : y.isFinite = true)
    (hle : rank x ≤ rank y) : x ≤ y := by
  obtain ⟨d, hd, hdreal⟩ := ofFloat?_of_isFinite hx
  obtain ⟨e, he, hereal⟩ := ofFloat?_of_isFinite hy
  obtain ⟨hdcanonical, hdrank⟩ := rank_of_ofFloat? hd
  obtain ⟨hecanonical, herank⟩ := rank_of_ofFloat? he
  have hdheight := hdcanonical.height_nonneg
  have heheight := hecanonical.height_nonneg
  have hdpos : (0 : ℝ) ≤ d.significand * 2 ^ d.exponent := magnitude_nonneg _ _
  have hepos : (0 : ℝ) ≤ e.significand * 2 ^ e.exponent := magnitude_nonneg _ _
  rw [real_le_real_iff hx hy, ← hdreal, ← hereal]
  rw [hdrank, herank] at hle
  unfold number twoPow
  split_ifs at hle ⊢ with hdsign hesign hesign
  · exact neg_le_neg (hecanonical.magnitude_le hdcanonical (by omega))
  · linarith
  · omega
  · exact hdcanonical.magnitude_le hecanonical hle

end Dyadic

end ChartCompiler
