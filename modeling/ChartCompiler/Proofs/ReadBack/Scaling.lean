import ChartCompiler.Proofs.Double.Bounds
import ChartCompiler.Proofs.Double.Decimals
import ChartCompiler.Proofs.ReadBack.Numerals

/-!
# Numbers that have been read

The reader makes an integer of 64 bits of a number, or a double. Doubles are scaled by powers of ten
after their digits have been cut to 64 bits, and a product that overflows is refused, so that they
are finite.
-/

namespace ChartCompiler

namespace Json

open Double Float.Model

/-- A number as the reader makes it: an integer of 64 bits or a finite double. -/
def Number.IsRead : Number → Prop
  | .integer n => IsWord n
  | .real x => x.isFinite = true

theorem takeFitting_lt {n : ℕ} (hn : n < 2 ^ 64) (digits : List Char) :
    (takeFitting n digits).1 < 2 ^ 64 := by
  induction digits generalizing n with
  | nil => exact hn
  | cons c rest ih =>
      rw [takeFitting]
      dsimp only
      split_ifs with hlonger
      · exact ih hlonger
      · exact hn

/-- Powers of ten are rounded once. -/
theorem rounds_powerOfTen {n : ℕ} (hn : n ≤ 2048) : Rounds (powerOfTen n) (10 ^ n) := by
  have hrounds := rounds_ofScientific (m := 1) hn
  rwa [Nat.cast_one, one_mul] at hrounds

theorem powerOfTen_spec {n : ℕ} (hn : n < 309) :
    (powerOfTen n).isFinite = true ∧ 1 ≤ |real (powerOfTen n)| := by
  have hdouble : IsDouble (5 * 2 ^ (1021 : ℤ)) := by
    have hbits := isDouble_mul_zpow (m := 5) (e := 1021) (by decide) (by decide)
    rwa [Int.cast_ofNat] at hbits
  have hlimit : (5 : ℝ) * 2 ^ (1021 : ℤ) < limit :=
    calc
      (5 : ℝ) * 2 ^ (1021 : ℤ) < 2 ^ (3 : ℤ) * 2 ^ (1021 : ℤ) :=
        mul_lt_mul_of_pos_right (by norm_num) (zpow_two_pos 1021)
      _ = limit := (zpow_two_add 3 1021).symm
  have hpower : (10 : ℝ) ^ n ≤ 5 * 2 ^ (1021 : ℤ) := by
    have hlargest : 10 ^ 308 ≤ 5 * 2 ^ 1021 := by decide +kernel
    refine (pow_le_pow_right₀ (by norm_num) (show n ≤ 308 by omega)).trans ?_
    exact_mod_cast hlargest
  obtain ⟨hfinite, hone, -⟩ := (rounds_powerOfTen (n := n) (by omega)).between isDouble_one
    hdouble ((neg_neg_of_pos limit_pos).trans one_pos) hlimit (one_le_pow₀ (by norm_num)) hpower
  exact ⟨hfinite, hone.trans (le_abs_self _)⟩

theorem isFinite_of_not_isInf {x : Float} (hnumber : x.isNaN = false) (hinf : x.isInf = false) :
    x.isFinite = true := by
  by_contra hinfinite
  obtain ⟨s, hparts⟩ := parts_of_infinite hnumber hinfinite
  have hisInf : x.isInf = (parts x).isInf := rfl
  rw [hisInf, hparts] at hinf
  exact nomatch hinf

/-- Quotients by powers of ten stay in bounds. -/
theorem bounded_div_powerOfTen {x : Float} {a n : ℕ} (hx : Bounded x a) (hn : n < 309)
    (ha : a < 1024) : Bounded (x / powerOfTen n) a := by
  obtain ⟨hfinite, hone⟩ := powerOfTen_spec hn
  exact hx.div (b := 0) hfinite (by rwa [pow_zero, one_mul]) ha

/-- Digits of 64 bits are scaled to a finite double, or not at all. -/
theorem isFinite_scaled? {significand : ℕ} (hfits : significand < 2 ^ 64) {exponent : Int}
    {x : Float} (hx : scaled? significand exponent = some x) : x.isFinite = true := by
  have hsignificand : Bounded (Float.ofNat significand) 64 :=
    Bounded.ofNat hfits.le (by norm_num)
  unfold scaled? at hx
  dsimp only at hx
  split_ifs at hx with hlarge hzero hpositive hinf hnegative hsmall
  · cases hx
    exact hsignificand.isFinite
  · cases hx
    obtain ⟨hpower, -⟩ := powerOfTen_spec (n := exponent.toNat) (by omega)
    exact isFinite_of_not_isInf (rounds_mul hsignificand.isFinite hpower).isNaN
      (Bool.eq_false_iff.mpr hinf)
  · cases hx
    exact (bounded_div_powerOfTen hsignificand (by omega) (by norm_num)).isFinite
  · cases hx
    have hfirst := bounded_div_powerOfTen (n := 308) hsignificand (by norm_num) (by norm_num)
    exact (bounded_div_powerOfTen hfirst (by omega) (by norm_num)).isFinite
  · cases hx
    rfl

theorem NumberParts.isRead_of_number? {parts : NumberParts} {n : Number}
    (hn : parts.number? = some n) : n.IsRead := by
  have hhead := takeFitting_lt (n := 0) (by norm_num) parts.whole
  unfold number? at hn
  generalize takeFitting 0 parts.whole = whole at hn hhead
  obtain ⟨head, taken⟩ := whole
  dsimp only at hn hhead
  split_ifs at hn with hinteger hplain hsigned
  · cases hn
    exact ⟨by omega, by omega⟩
  · cases hn
    have hlow : head ≤ 2 ^ 63 := hsigned.2
    exact ⟨by omega, by omega⟩
  · cases hn
    exact (Bounded.ofNat hhead.le (by norm_num)).neg.isFinite
  · obtain ⟨x, hx, rfl⟩ := Option.map_eq_some_iff.mp hn
    exact (isFinite_neg x).trans (isFinite_scaled? (takeFitting_lt hhead parts.fraction) hx)
  · obtain ⟨x, hx, rfl⟩ := Option.map_eq_some_iff.mp hn
    exact isFinite_scaled? (takeFitting_lt hhead parts.fraction) hx

theorem isRead_unsignedNumber {negative : Bool} {s rest : List Char} {n : Number}
    (hread : unsignedNumber negative s = .ok (n, rest)) : n.IsRead := by
  obtain ⟨parts, -, hnumber⟩ := unsignedNumber_eq_ok.mp hread
  exact NumberParts.isRead_of_number? hnumber

theorem Number.IsRead.isFinite_toFloat {n : Number} (hn : n.IsRead) :
    n.toFloat.isFinite = true := by
  cases n with
  | integer n =>
      obtain ⟨hlow, hhigh⟩ := hn
      cases n with
      | ofNat n =>
          have hword : n ≤ 2 ^ 64 := by
            rw [Int.ofNat_eq_natCast] at hhigh
            omega
          exact (Bounded.ofNat hword (by norm_num)).isFinite
      | negSucc n => exact (Bounded.ofNat (a := 64) (by omega) (by norm_num)).neg.isFinite
  | real x => exact hn

/-- A number that has been read reads back, if it does so as a double. -/
theorem Number.IsRead.readsBack {n : Number} (hn : n.IsRead)
    (hdoubles : ∀ x ∈ (Json.number n).doubles, x.isFinite = true → (Number.real x).ReadsBack) :
    n.ReadsBack := by
  cases n with
  | integer n => exact readsBack_integer hn
  | real x => exact hdoubles x (List.mem_singleton_self x) hn

end Json

end ChartCompiler
