import ChartCompiler.Proofs.Double.Decimals
import ChartCompiler.Proofs.Double.Rank
import ChartCompiler.Proofs.Double.Steps
import ChartCompiler.Proofs.Percentages

/-!
# Signs of doubles

The sign bit of a number is the sign of its parts, also for the two zeros. Together with the value
it determines the double: with a given sign, one double alone is the rounded result of a
computation.
-/

namespace ChartCompiler

open Float.Model Float.Model.UnpackedFloat

namespace Double

def sign? : UnpackedFloat → Option Sign
  | .notANumber => none
  | .infinity s => some s
  | .zero s => some s
  | .finite s _ _ _ => some s

theorem sign?_neg (u : UnpackedFloat) : sign? u.neg = (sign? u).map (- ·) := by
  cases u <;> rfl

variable {x y : Float}

theorem ofBitVec_sign (x : Float) :
    Sign.ofBitVec (@unpackSign Format.binary64 x.toBits.toBitVec) =
      if isSigned x then .negative else .positive := by
  rw [Dyadic.ofBitVec_unpackSign]
  refine if_congr ?_ rfl rfl
  rw [isSigned, decide_eq_true_eq]
  exact not_lt.symm

theorem sign?_parts (hx : x.isNaN = false) :
    sign? (parts x) = some (if isSigned x then .negative else .positive) := by
  rw [← ofBitVec_sign]
  change (UnpackedFloat.unpack Format.binary64 x.toBits.toBitVec).isNaN = false at hx
  change sign? (UnpackedFloat.unpack Format.binary64 x.toBits.toBitVec) = _
  unfold UnpackedFloat.unpack at hx ⊢
  dsimp only at hx ⊢
  split_ifs at hx ⊢ with hfull hnone hsubnormal hzero
  · rfl
  · exact nomatch hx
  · rfl
  · rfl
  · rfl

/-- The minus turns the sign of a number around, that of a zero as well. -/
theorem isSigned_neg (hx : x.isNaN = false) : isSigned (-x) = !isSigned x := by
  have hneg := sign?_parts (x := -x) (by rw [isNaN_neg, hx])
  rw [parts_neg, sign?_neg, sign?_parts hx, Option.map_some, Option.some.injEq] at hneg
  cases hsign : isSigned x with
  | false =>
      cases hother : isSigned (-x) with
      | false =>
          rw [hsign, hother] at hneg
          exact nomatch hneg
      | true => rfl
  | true =>
      cases hother : isSigned (-x) with
      | false => rfl
      | true =>
          rw [hsign, hother] at hneg
          exact nomatch hneg

/-- The bits of an infinity. -/
theorem toNat_toBits_of_infinity {s : Sign} (hx : parts x = .infinity s) :
    x.toBits.toNat = (if isSigned x then 2 ^ 63 else 0) + 2047 * 2 ^ 52 := by
  let bits := x.toBits.toBitVec
  have hlt : bits.toNat < 2 ^ 64 := bits.isLt
  have hmantissa := Dyadic.toNat_unpackMantissa bits
  have hexponent := Dyadic.toNat_unpackExponent bits
  have hsigned : isSigned x = true ↔ 2 ^ 63 ≤ bits.toNat := by
    rw [isSigned, decide_eq_true_eq]
    exact not_lt
  change UnpackedFloat.unpack Format.binary64 bits = _ at hx
  unfold UnpackedFloat.unpack at hx
  dsimp only at hx
  split_ifs at hx with hfull hnone
  rw [hfull] at hexponent
  rw [hnone] at hmantissa
  change 2047 = _ at hexponent
  change 0 = _ at hmantissa
  change bits.toNat = _
  rw [if_congr hsigned rfl rfl]
  split_ifs <;> omega

theorem isFinite_of_value_eq (hy : y.isNaN = false) (hvalue : value x = value y)
    (hfinite : x.isFinite = true) : y.isFinite = true := by
  by_contra hinfinite
  obtain ⟨t, ht⟩ := parts_of_infinite hy hinfinite
  rw [value_of_isFinite hfinite] at hvalue
  cases t with
  | positive => exact EReal.coe_ne_top _ (hvalue.trans (value_top ht))
  | negative => exact EReal.coe_ne_bot _ (hvalue.trans (value_bot ht))

/-- Doubles with one value and one sign are the same, infinities included. -/
theorem eq_of_value_eq (hx : x.isNaN = false) (hy : y.isNaN = false) (hvalue : value x = value y)
    (hsign : isSigned x = isSigned y) : x = y := by
  by_cases hfinite : x.isFinite = true
  · have hyfinite := isFinite_of_value_eq hy hvalue hfinite
    obtain ⟨d, hd, hdreal⟩ := Dyadic.ofFloat?_of_isFinite hfinite
    obtain ⟨e, he, hereal⟩ := Dyadic.ofFloat?_of_isFinite hyfinite
    obtain ⟨hdcanonical, hdrank⟩ := Dyadic.rank_of_ofFloat? hd
    obtain ⟨hecanonical, herank⟩ := Dyadic.rank_of_ofFloat? he
    have hnegative : d.negative = e.negative := by
      rw [isSigned_of_ofFloat? hd, isSigned_of_ofFloat? he, hsign]
    have hnumber : d.number = e.number := by rw [hdreal, hereal, real, real, hvalue]
    have hmagnitude : (d.significand : ℝ) * 2 ^ d.exponent = e.significand * 2 ^ e.exponent := by
      rw [Dyadic.number, Dyadic.number, hnegative] at hnumber
      split_ifs at hnumber
      · exact neg_inj.mp hnumber
      · exact hnumber
    have hcompare := compare_magnitude hdcanonical.bits hecanonical.bits hdcanonical.least
      hecanonical.least hdcanonical.normal hecanonical.normal
    rw [compare_eq_iff_eq.mpr hmagnitude, Ordering.then_eq_eq, compare_eq_iff_eq,
      compare_eq_iff_eq] at hcompare
    refine Dyadic.rank_injective ?_
    rw [hdrank, herank, hnegative, Dyadic.height, Dyadic.height, hcompare.1, hcompare.2]
  · obtain ⟨s, hs⟩ := parts_of_infinite hx hfinite
    obtain ⟨t, ht⟩ := parts_of_infinite hy (mt (isFinite_of_value_eq hx hvalue.symm) hfinite)
    refine eq_of_toBits_eq ?_
    rw [toNat_toBits_of_infinity hs, toNat_toBits_of_infinity ht, hsign]

theorem Rounds.eq_of_isSigned {r : ℝ} (hx : Rounds x r) (hy : Rounds y r)
    (hsign : isSigned x = isSigned y) : x = y :=
  eq_of_value_eq hx.isNaN hy.isNaN (hx.value.trans hy.value.symm) hsign

end Double

open Double

/-- The double nearest to a numeral has the numeral's sign. -/
theorem Numeral.isSigned_value (n : Numeral) : isSigned n.value = n.negative := by
  have hplain : isSigned n.decimal.toFloat = false :=
    decide_eq_false (not_not_intro n.decimal.isUnsigned_toFloat)
  unfold value
  cases hnegative : n.negative with
  | false => exact hplain
  | true =>
      rw [if_pos rfl, isSigned_neg n.decimal.rounds_toFloat.isNaN, hplain]
      rfl

end ChartCompiler
