import ChartCompiler.Proofs.Double.Rounding
import Mathlib

/-!
# Doubles taken apart

The logical model of doubles computes with a sign, a mantissa and an exponent, and
rounds through two residual bits. Read as real numbers its results are those of
`nearest`, and packing them into 64 bits loses nothing but what overflows.
-/

namespace ChartCompiler.Double

open Float.Model Float.Model.UnpackedFloat

/-! ## Residual bits -/

/-- What a mantissa with its two residual bits says of the number that it came from:
whether that is a whole number, and which of its two neighbours is the nearer one. -/
def Shows : ExtendedMantissa → ℝ → Prop
  | ⟨m, false, false⟩, x => x = m
  | ⟨m, false, true⟩, x => m < x ∧ x - m < m + 1 - x
  | ⟨m, true, false⟩, x => x - m = m + 1 - x
  | ⟨m, true, true⟩, x => m + 1 - x < x - m ∧ x < m + 1

theorem shows_exact (m : ℕ) : Shows (.ofMantissaAndAccuracy m .exact) m :=
  rfl

theorem Shows.mem_Ico {em : ExtendedMantissa} {x : ℝ} (hx : Shows em x) :
    (em.mantissa : ℝ) ≤ x ∧ x < em.mantissa + 1 := by
  obtain ⟨m, round, sticky⟩ := em
  cases round <;> cases sticky <;> simp only [Shows] at hx ⊢ <;> constructor <;> linarith

theorem Shows.floor_eq {em : ExtendedMantissa} {x : ℝ} (hx : Shows em x) :
    ⌊x⌋ = em.mantissa :=
  Int.floor_eq_iff.mpr (by exact_mod_cast hx.mem_Ico)

/-- The residual bits decide the rounding. -/
theorem Shows.roundedMantissa_eq {em : ExtendedMantissa} {x : ℝ} (hx : Shows em x) :
    (em.roundedMantissa : ℤ) = halfEven x := by
  have hfloor := hx.floor_eq
  obtain ⟨m, round, sticky⟩ := em
  unfold halfEven
  rw [hfloor]
  cases round <;> cases sticky <;>
    simp only [Shows, ExtendedMantissa.roundedMantissa, ExtendedMantissa.accuracy,
      Accuracy.roundToNearestEven] at hx ⊢ <;>
    push_cast <;> split_ifs <;> first | omega | linarith

theorem shiftRightOne_even (k : ℕ) (round sticky : Bool) :
    (ExtendedMantissa.mk (2 * k) round sticky).shiftRightOne =
      ⟨k, false, round || sticky⟩ := by
  simp [ExtendedMantissa.shiftRightOne]

theorem shiftRightOne_odd (k : ℕ) (round sticky : Bool) :
    (ExtendedMantissa.mk (2 * k + 1) round sticky).shiftRightOne =
      ⟨k, true, round || sticky⟩ := by
  unfold ExtendedMantissa.shiftRightOne
  rw [ExtendedMantissa.mk.injEq]
  refine ⟨by dsimp only; omega, ?_, rfl⟩
  simp

/-- Dropping a bit halves the number, and the residual bits still say enough. -/
theorem Shows.shiftRightOne {em : ExtendedMantissa} {x : ℝ} (hx : Shows em x) :
    Shows em.shiftRightOne (x / 2) := by
  obtain ⟨m, round, sticky⟩ := em
  obtain ⟨k, rfl | rfl⟩ := m.even_or_odd'
  · rw [shiftRightOne_even]
    cases round <;> cases sticky <;>
      simp only [Shows, Bool.or_false, Bool.or_true, Nat.cast_mul, Nat.cast_ofNat]
        at hx ⊢ <;>
      first | linarith | (constructor <;> linarith)
  · rw [shiftRightOne_odd]
    cases round <;> cases sticky <;>
      simp only [Shows, Bool.or_false, Bool.or_true, Nat.cast_add, Nat.cast_mul,
        Nat.cast_ofNat, Nat.cast_one] at hx ⊢ <;>
      first | linarith | (constructor <;> linarith)

theorem Shows.shiftRight {em : ExtendedMantissa} {x : ℝ} (hx : Shows em x) (k : ℕ) :
    Shows (em >>> k) (x / 2 ^ k) := by
  induction k with
  | zero =>
      rw [pow_zero, div_one]
      exact hx
  | succ k ih =>
      rw [pow_succ, ← div_div]
      exact ih.shiftRightOne

/-! ## Values -/

def signed (s : Sign) (r : ℝ) : ℝ :=
  match s with
  | .negative => -r
  | .positive => r

@[simp]
theorem abs_signed (s : Sign) (r : ℝ) : |signed s r| = |r| := by
  cases s with
  | negative => exact abs_neg r
  | positive => rfl

theorem nearest_signed (s : Sign) (r : ℝ) : nearest (signed s r) = signed s (nearest r) := by
  cases s with
  | negative => exact nearest_neg r
  | positive => rfl

/-- The number that an unpacked double stands for. NaN stands for none and is given
zero. -/
noncomputable def unpackedValue : UnpackedFloat → EReal
  | .infinity .positive => ⊤
  | .infinity .negative => ⊥
  | .notANumber => 0
  | .zero _ => 0
  | .finite s m e _ => (signed s (m * twoPow e) : ℝ)

/-- The mantissa has 53 bits, or fewer at the least exponent. -/
def Canonical : UnpackedFloat → Prop
  | .finite _ m e _ => m < 2 ^ 53 ∧ -1074 ≤ e ∧ (2 ^ 52 ≤ m ∨ e = -1074)
  | _ => True

/-- An unpacked double is finite, in its one canonical form, and stands for `r`. -/
structure Holds (u : UnpackedFloat) (r : ℝ) : Prop where
  isFinite : u.isFinite = true
  canonical : Canonical u
  value : unpackedValue u = r

/-! ## Rounding -/

theorem targetExponent_binary64 (total : ℤ) :
    Format.binary64.targetExponent total = max (total - 53) (-1074) :=
  rfl

theorem targetExponent_eq (m : ℕ) (e : ℤ) :
    Format.binary64.targetExponent (totalExponent m e) =
      max (m.log2 + e - 52) (-1074) := by
  rw [targetExponent_binary64, totalExponent]
  omega

theorem shiftToTargetExponent_eq {m k : ℕ} {e : ℤ} (a : Accuracy)
    (hk : (Format.binary64.targetExponent (totalExponent m e) - e).toNat = k) :
    shiftToTargetExponent Format.binary64 m e a =
      (ExtendedMantissa.ofMantissaAndAccuracy m a >>> k, e + k) := by
  rw [← hk]
  rfl

section Target

variable {m : ℕ} {e : ℤ} {x : ℝ} (hlow : (m : ℝ) ≤ x) (hhigh : x < m + 1)
include hlow hhigh

omit hlow in
theorem place_le_targetExponent (hpos : 0 < x) :
    place (x * 2 ^ e) ≤ Format.binary64.targetExponent (totalExponent m e) := by
  have hlog : x < 2 ^ ((m.log2 : ℤ) + 1) := by
    refine hhigh.trans_le ?_
    exact_mod_cast (Nat.lt_log2_self (n := m))
  rw [targetExponent_eq]
  apply place_le (le_max_right _ _)
  calc
    |x * 2 ^ e| = x * 2 ^ e := abs_of_pos (mul_pos hpos (zpow_two_pos e))
    _ < 2 ^ ((m.log2 : ℤ) + 1) * 2 ^ e := mul_lt_mul_of_pos_right hlog (zpow_two_pos e)
    _ = 2 ^ ((m.log2 : ℤ) + 1 + e) := (zpow_two_add _ e).symm
    _ ≤ 2 ^ (53 + max ((m.log2 : ℤ) + e - 52) (-1074)) := zpow_two_le (by omega)

/-- The exponent that the model aims at is that of the last place. -/
theorem targetExponent_eq_place (hm : 0 < m) :
    Format.binary64.targetExponent (totalExponent m e) = place (x * 2 ^ e) := by
  have hpos : 0 < x := lt_of_lt_of_le (by exact_mod_cast hm) hlow
  apply le_antisymm _ (place_le_targetExponent hhigh hpos)
  rw [targetExponent_eq]
  apply max_le _ (le_place _)
  apply le_place_of_zpow_le
  have hlog : (2 : ℝ) ^ (m.log2 : ℤ) ≤ m := by
    exact_mod_cast Nat.log2_self_le hm.ne'
  calc
    (2 : ℝ) ^ (52 + ((m.log2 : ℤ) + e - 52)) = 2 ^ (m.log2 : ℤ) * 2 ^ e := by
      rw [← zpow_two_add]
      congr 1
      ring
    _ ≤ x * 2 ^ e := mul_le_mul_of_nonneg_right (hlog.trans hlow) (zpow_two_pos e).le
    _ = |x * 2 ^ e| := (abs_of_pos (mul_pos hpos (zpow_two_pos e))).symm

/-- It is so too if nothing stands in front of the point, unless the exponent is so
large that places are missing. -/
theorem targetExponent_eq_place_of_le (hpos : 0 < x) (he : e ≤ place (x * 2 ^ e)) :
    Format.binary64.targetExponent (totalExponent m e) = place (x * 2 ^ e) := by
  rcases Nat.eq_zero_or_pos m with rfl | hm
  · have htarget := place_le_targetExponent (e := e) hhigh hpos
    have hplace := le_place (x * 2 ^ e)
    rw [targetExponent_eq] at htarget ⊢
    rw [Nat.log2_zero] at htarget ⊢
    omega
  · exact targetExponent_eq_place hlow hhigh hm

end Target

/-- The first shift drops all bits behind the last place and keeps what rounding has
to know of them. -/
theorem shiftToTargetExponent_spec {m : ℕ} {e : ℤ} {a : Accuracy} {x : ℝ}
    (hx : Shows (.ofMantissaAndAccuracy m a) x) (hpos : 0 < x)
    (he : e ≤ place (x * 2 ^ e)) :
    ∃ em, shiftToTargetExponent Format.binary64 m e a = (em, place (x * 2 ^ e)) ∧
      (em.roundedMantissa : ℤ) = halfEven (x * 2 ^ e / 2 ^ place (x * 2 ^ e)) := by
  have hmantissa : (ExtendedMantissa.ofMantissaAndAccuracy m a).mantissa = m := by
    cases a with
    | exact => rfl
    | inexact o => cases o <;> rfl
  obtain ⟨hlow, hhigh⟩ := hx.mem_Ico
  rw [hmantissa] at hlow hhigh
  have htarget := targetExponent_eq_place_of_le hlow hhigh hpos he
  generalize hplace : place (x * 2 ^ e) = last at he htarget
  obtain ⟨k, hk⟩ : ∃ k : ℕ, last = e + k := ⟨(last - e).toNat, by omega⟩
  refine ⟨ExtendedMantissa.ofMantissaAndAccuracy m a >>> k, ?_, ?_⟩
  · rw [shiftToTargetExponent_eq a (k := k) (by omega), hk]
  · rw [(hx.shiftRight k).roundedMantissa_eq, hk, zpow_two_add, zpow_natCast,
      mul_comm x, mul_div_mul_left _ _ (zpow_two_pos e).ne']

/-- A mantissa of at most 53 bits stays as it is. -/
theorem shiftToTargetExponent_of_lt {q : ℕ} {e : ℤ} (hq : q < 2 ^ 53) (he : -1074 ≤ e) :
    shiftToTargetExponent Format.binary64 q e .exact = (⟨q, false, false⟩, e) := by
  have hlog : q.log2 ≤ 52 := by
    rcases Nat.eq_zero_or_pos q with hzero | hpos
    · subst hzero
      decide
    · have := (Nat.log2_lt hpos.ne').mpr hq
      omega
  have htarget := targetExponent_eq q e
  rw [shiftToTargetExponent_eq .exact (k := 0) (by omega), Nat.cast_zero, add_zero]
  rfl

/-- A mantissa that rounding has carried into a 54th bit loses a zero. -/
theorem shiftToTargetExponent_carry {e : ℤ} (he : -1074 ≤ e) :
    shiftToTargetExponent Format.binary64 (2 ^ 53) e .exact =
      (⟨2 ^ 52, false, false⟩, e + 1) := by
  have htarget := targetExponent_eq (2 ^ 53) e
  rw [Nat.log2_two_pow] at htarget
  rw [shiftToTargetExponent_eq .exact (k := 1) (by omega)]
  rfl

/-- The model rounds to the nearest double. -/
theorem holds_roundWithAccuracy (s : Sign) {m : ℕ} {e : ℤ} {a : Accuracy} {x : ℝ}
    (hx : Shows (.ofMantissaAndAccuracy m a) x) (hpos : 0 < x)
    (he : e ≤ place (x * 2 ^ e)) :
    Holds (roundWithAccuracy Format.binary64 s m e a) (nearest (signed s (x * 2 ^ e))) := by
  obtain ⟨em, hshift, hrounded⟩ := shiftToTargetExponent_spec hx hpos he
  have hnearest : nearest (x * 2 ^ e) = em.roundedMantissa * 2 ^ place (x * 2 ^ e) := by
    rw [nearest, ← hrounded, Int.cast_natCast]
  have hlarge : 2 ^ 52 ≤ em.roundedMantissa ∨ place (x * 2 ^ e) = -1074 := by
    rcases (le_place (x * 2 ^ e)).lt_or_eq with hplace | hplace
    · left
      have hquotient : ((2 ^ 52 : ℤ) : ℝ) ≤ x * 2 ^ e / 2 ^ place (x * 2 ^ e) := by
        have habs := zpow_place_le_abs hplace
        rw [abs_of_pos (mul_pos hpos (zpow_two_pos e)), zpow_two_add] at habs
        rw [le_div_iff₀ (zpow_two_pos _)]
        exact_mod_cast habs
      have hmono := halfEven_mono hquotient
      rw [halfEven_intCast, ← hrounded] at hmono
      exact_mod_cast hmono
    · exact .inr hplace.symm
  have hsmall : em.roundedMantissa ≤ 2 ^ 53 := by
    have hbound := (abs_le.mp (abs_halfEven_place_le (x * 2 ^ e))).2
    rw [← hrounded] at hbound
    exact_mod_cast hbound
  have hplace := le_place (x * 2 ^ e)
  rw [nearest_signed, hnearest]
  generalize place (x * 2 ^ e) = last at *
  generalize hq : em.roundedMantissa = q at *
  unfold roundWithAccuracy
  rcases hsmall.lt_or_eq with hlt | rfl
  · simp only [hshift, hq, shiftToTargetExponent_of_lt hlt hplace]
    rcases Nat.eq_zero_or_pos q with rfl | hqpos
    · refine ⟨rfl, trivial, ?_⟩
      cases s <;> simp [unpackedValue, signed]
    · simp only [hqpos.ne', ↓reduceDIte]
      exact ⟨rfl, ⟨hlt, hplace, hlarge⟩, rfl⟩
  · simp only [hshift, hq, shiftToTargetExponent_carry hplace]
    refine ⟨rfl, ⟨by norm_num, by omega, .inl (le_refl _)⟩, ?_⟩
    have hcarry : ((2 ^ 52 : ℕ) : ℝ) * 2 ^ (last + 1) = ((2 ^ 53 : ℕ) : ℝ) * 2 ^ last := by
      rw [zpow_two_add]
      push_cast
      ring
    exact congrArg (fun r : ℝ => ((signed s r : ℝ) : EReal)) hcarry

/-- An exact mantissa may have any exponent: missing places are filled with zeros. -/
theorem holds_round (s : Sign) {m : ℕ} (hm : 0 < m) (e : ℤ) :
    Holds (UnpackedFloat.round Format.binary64 s m e) (nearest (signed s (m * 2 ^ e))) := by
  have htarget := targetExponent_eq_place (e := e) (le_refl (m : ℝ)) (lt_add_one _) hm
  unfold UnpackedFloat.round decreaseExponent
  dsimp only
  generalize hk : (e - Format.binary64.targetExponent (totalExponent m e)).toNat = k
  have hvalue : ((m <<< k : ℕ) : ℝ) * 2 ^ (e - k) = m * 2 ^ e := by
    have hpow : (2 : ℝ) ^ e = 2 ^ k * 2 ^ (e - k) := by
      rw [← zpow_natCast, ← zpow_two_add, add_sub_cancel]
    rw [Nat.shiftLeft_eq, hpow]
    push_cast
    ring
  have hshifted : 0 < m <<< k := by
    rw [Nat.shiftLeft_eq]
    exact Nat.mul_pos hm (Nat.two_pow_pos k)
  have hholds := holds_roundWithAccuracy s (e := e - k) (shows_exact (m <<< k))
    (by exact_mod_cast hshifted) (by rw [hvalue]; omega)
  rwa [hvalue] at hholds

theorem holds_normalize (n : ℤ) (e : ℤ) (s : Sign) :
    Holds (UnpackedFloat.normalize Format.binary64 n e s) (nearest (n * 2 ^ e)) := by
  unfold UnpackedFloat.normalize
  rcases lt_trichotomy n 0 with hneg | rfl | hpos
  · rw [compare_lt_iff_lt.mpr hneg]
    have hholds := holds_round .negative (m := (-n).toNat) (by omega) e
    have hcast : (((-n).toNat : ℕ) : ℝ) = -n := by
      exact_mod_cast Int.toNat_of_nonneg (by omega : 0 ≤ -n)
    rw [hcast, signed, neg_mul, neg_neg] at hholds
    exact hholds
  · refine ⟨rfl, trivial, ?_⟩
    rw [Int.cast_zero, zero_mul, nearest_zero]
    rfl
  · rw [compare_gt_iff_gt.mpr hpos]
    have hholds := holds_round .positive (m := n.toNat) (by omega) e
    have hcast : ((n.toNat : ℕ) : ℝ) = n := by
      exact_mod_cast Int.toNat_of_nonneg hpos.le
    rw [hcast] at hholds
    exact hholds

/-! ## Packing -/

/-- What 64 bits hold of an unpacked double: all of it, or infinity if the exponent
is too large. -/
def packed : UnpackedFloat → UnpackedFloat
  | .finite s m e hpos => if 971 < e then .infinity s else .finite s m e hpos
  | u => u

@[simp]
theorem unpackSign_packComponents (s : Sign) (e : BitVec 11) (m : BitVec 52) :
    unpackSign (packComponents Format.binary64 s e m) = s.toBitVec := by
  apply BitVec.eq_of_getLsbD_eq
  intro i hi
  obtain rfl : i = 0 := by omega
  rw [unpackSign, packComponents, BitVec.getLsbD_cast, BitVec.getLsbD_extractLsb,
    BitVec.getLsbD_append, BitVec.getLsbD_append]
  simp

@[simp]
theorem ofBitVec_toBitVec (s : Sign) : Sign.ofBitVec s.toBitVec = s := by
  cases s <;> rfl

theorem toNat_implicit_append (m : BitVec 52) : (1#1 ++ m).toNat = 2 ^ 52 + m.toNat := by
  rw [BitVec.toNat_append, ← Nat.shiftLeft_add_eq_or_of_lt m.isLt]
  rfl

theorem unpack_subnormal (s : Sign) {m : ℕ} (hpos : 0 < m) (hm : m < 2 ^ 52) :
    UnpackedFloat.unpack Format.binary64
      (packComponents Format.binary64 s 0 (BitVec.ofNat 52 m)) =
      .finite s m (-1074) hpos := by
  have hmantissa : (BitVec.ofNat 52 m).toNat = m := Nat.mod_eq_of_lt hm
  have hnonzero : BitVec.ofNat 52 m ≠ 0#52 := by
    intro hzero
    rw [hzero] at hmantissa
    exact hpos.ne hmantissa
  unfold UnpackedFloat.unpack
  simp only [unpackMantissa_packComponents, unpackExponent_packComponents,
    unpackSign_packComponents, ofBitVec_toBitVec, hmantissa, hnonzero]
  rfl

theorem unpack_normal (s : Sign) {m biased : ℕ} {e : ℤ} (hpos : 0 < m) (hlow : 2 ^ 52 ≤ m)
    (hm : m < 2 ^ 53) (hbiased : (biased : ℤ) = e + 1075) (he : -1074 ≤ e)
    (hrange : e ≤ 971) :
    UnpackedFloat.unpack Format.binary64
      (packComponents Format.binary64 s (BitVec.ofNat 11 biased) (BitVec.ofNat 52 m)) =
      .finite s m e hpos := by
  have hexponent : (BitVec.ofNat 11 biased).toNat = biased := Nat.mod_eq_of_lt (by omega)
  have hmantissa : (1#1 ++ BitVec.ofNat 52 m).toNat = m := by
    rw [toNat_implicit_append, BitVec.toNat_ofNat]
    omega
  have hfull : BitVec.ofNat 11 biased ≠ -1#11 := by
    intro heq
    rw [heq] at hexponent
    have : (2047 : ℕ) = biased := hexponent
    omega
  have hnonzero : BitVec.ofNat 11 biased ≠ 0#11 := by
    intro heq
    rw [heq] at hexponent
    have : (0 : ℕ) = biased := hexponent
    omega
  unfold UnpackedFloat.unpack
  simp only [unpackMantissa_packComponents, unpackExponent_packComponents,
    unpackSign_packComponents, ofBitVec_toBitVec, hmantissa, hexponent, hfull, hnonzero, if_false]
  congr 1
  simp [Format.exponentBias]
  omega

theorem unpack_packedInfinity (s : Sign) :
    UnpackedFloat.unpack Format.binary64 (packedInfinity Format.binary64 s) =
      .infinity s := by
  unfold UnpackedFloat.unpack packedInfinity
  simp only [unpackMantissa_packComponents, unpackExponent_packComponents,
    unpackSign_packComponents, ofBitVec_toBitVec]
  rfl

theorem unpack_pack {u : UnpackedFloat} (hu : Canonical u) :
    (Float.Model.pack u).unpack = packed u := by
  change UnpackedFloat.unpack Format.binary64 (UnpackedFloat.pack Format.binary64 u) = _
  cases u with
  | notANumber => rfl
  | infinity s => exact unpack_packedInfinity s
  | zero s => cases s <;> rfl
  | finite s m e hpos =>
      obtain ⟨hm, he, hlow⟩ := hu
      have hbias : (Format.binary64.exponentBias : ℤ) = 1023 := rfl
      have hpow : 2 ^ Format.binary64.exponentBits = 2048 := rfl
      have hbits : Format.binary64.mantissaBits = 53 := rfl
      have hlog := Nat.log2_lt hpos.ne' (k := 53)
      unfold UnpackedFloat.pack packed
      dsimp only
      rw [hbias, hpow, hbits]
      split_ifs with hover hlarge hlarge hlarge
      · exact unpack_packedInfinity s
      · omega
      · omega
      · refine unpack_normal s hpos ?_ hm (by omega) he (by omega)
        have := Nat.log2_self_le hpos.ne'
        rwa [show m.log2 = 52 by omega] at this
      · omega
      · have hsmall : m < 2 ^ 52 := by
          by_contra hbits
          have := (Nat.le_log2 hpos.ne' (k := 52)).mpr (by omega)
          omega
        obtain rfl : e = -1074 := by omega
        exact unpack_subnormal s hpos hsmall

/-- All doubles are in canonical form, and their exponents fit. -/
theorem canonical_unpack (x : Float.Model) :
    Canonical x.unpack ∧ packed x.unpack = x.unpack := by
  generalize hm : @unpackMantissa Format.binary64 x.toBits.toBitVec = m
  generalize he : @unpackExponent Format.binary64 x.toBits.toBitVec = e
  have hmlt : m.toNat < 2 ^ 52 := m.isLt
  have helt : e.toNat < 2 ^ 11 := e.isLt
  have hbias : (Format.binary64.exponentBias : ℤ) = 1023 := rfl
  unfold Float.Model.unpack UnpackedFloat.unpack
  simp only [hm, he]
  split_ifs with hfull hzero hsub hzero
  · exact ⟨trivial, rfl⟩
  · exact ⟨trivial, rfl⟩
  · exact ⟨trivial, rfl⟩
  · subst hsub
    exact ⟨⟨by omega, by decide, .inr rfl⟩, rfl⟩
  · have hlow : 0 < e.toNat := BitVec.toNat_pos_of_ne_zero hsub
    have hhigh : e.toNat < 2047 := by
      by_contra hmax
      exact hfull (BitVec.eq_of_toNat_eq (show e.toNat = 2047 by omega))
    have hnormal := toNat_implicit_append m
    simp only [Canonical, packed, hbias]
    exact ⟨⟨by omega, by omega, .inl (by omega)⟩, if_neg (by omega)⟩

end ChartCompiler.Double
