import ChartCompiler.Proofs.Double.Arithmetic

/-!
# Doubles as scaled integers

The three parts of a finite double that are read off its bits write its number. Among doubles
without a sign they are a canonical form, so that such doubles are told apart by their numbers:
`Double.eq_of_real_eq`.
-/

namespace ChartCompiler

open Float.Model Float.Model.UnpackedFloat Double

namespace Dyadic

noncomputable def number (d : Dyadic) : ℝ :=
  if d.negative then -(d.significand * twoPow d.exponent)
  else d.significand * twoPow d.exponent

theorem number_mk (p : Prop) [Decidable p] (m : ℕ) (e : ℤ) :
    number ⟨p, m, e⟩ = signed (if p then .negative else .positive) (m * 2 ^ e) := by
  by_cases hp : p
  · simp [number, hp, signed, twoPow]
  · simp [number, hp, signed, twoPow]

section Bits

variable (bits : BitVec 64)

theorem toNat_unpackMantissa :
    (@unpackMantissa Format.binary64 bits).toNat = bits.toNat % 2 ^ 52 := by
  rw [unpackMantissa, BitVec.toNat_cast, BitVec.extractLsb_toNat]
  rfl

theorem toNat_unpackExponent :
    (@unpackExponent Format.binary64 bits).toNat = bits.toNat / 2 ^ 52 % 2 ^ 11 := by
  rw [unpackExponent, BitVec.toNat_cast, BitVec.extractLsb_toNat, Nat.shiftRight_eq_div_pow]
  rfl

theorem ofBitVec_unpackSign :
    Sign.ofBitVec (@unpackSign Format.binary64 bits) =
      if 2 ^ 63 ≤ bits.toNat then .negative else .positive := by
  have hlt : bits.toNat < 2 ^ 64 := bits.isLt
  have hbit : (@unpackSign Format.binary64 bits).toNat = bits.toNat / 2 ^ 63 % 2 ^ 1 := by
    rw [unpackSign, BitVec.toNat_cast, BitVec.extractLsb_toNat, Nat.shiftRight_eq_div_pow]
    rfl
  have hzero : @unpackSign Format.binary64 bits = 0#1 ↔ ¬2 ^ 63 ≤ bits.toNat := by
    rw [← BitVec.toNat_inj, hbit]
    change _ = 0 ↔ _
    omega
  unfold Sign.ofBitVec
  split_ifs with h1 h2 h2 <;> tauto

end Bits

/-- The parts that are read off the bits are those of the double. -/
theorem ofFloat?_of_isFinite {x : Float} (hx : x.isFinite = true) :
    ∃ d, ofFloat? x = some d ∧ d.number = real x := by
  let bits := x.toBits.toBitVec
  have hsign := ofBitVec_unpackSign bits
  have hmantissa := toNat_unpackMantissa bits
  have hexponent := toNat_unpackExponent bits
  have hbias : (Format.binary64.exponentBias : ℤ) = 1023 := rfl
  have hreal : real x = (unpackedValue (UnpackedFloat.unpack Format.binary64 bits)).toReal := rfl
  have hfinite : (UnpackedFloat.unpack Format.binary64 bits).isFinite = true := hx
  unfold UnpackedFloat.unpack at hreal hfinite
  simp only [hsign] at hreal hfinite
  unfold ofFloat?
  change ∃ d, (if bits.toNat / 2 ^ 52 % 2 ^ 11 = 2047 then none
    else if bits.toNat / 2 ^ 52 % 2 ^ 11 = 0 then
      some (Dyadic.mk (2 ^ 63 ≤ bits.toNat) (bits.toNat % 2 ^ 52) (-1074))
    else some (Dyadic.mk (2 ^ 63 ≤ bits.toNat) (2 ^ 52 + bits.toNat % 2 ^ 52)
      ((bits.toNat / 2 ^ 52 % 2 ^ 11 : ℕ) - 1075))) = some d ∧ d.number = real x
  rw [← hexponent, ← hmantissa]
  have hfull : @unpackExponent Format.binary64 bits = -1#11 ↔
      (@unpackExponent Format.binary64 bits).toNat = 2047 := by
    rw [← BitVec.toNat_inj]
    rfl
  have hnone : @unpackExponent Format.binary64 bits = 0#11 ↔
      (@unpackExponent Format.binary64 bits).toNat = 0 := by
    rw [← BitVec.toNat_inj]
    rfl
  by_cases hinfinite : @unpackExponent Format.binary64 bits = -1#11
  · rw [if_pos hinfinite] at hfinite
    split_ifs at hfinite <;> exact nomatch hfinite
  rw [if_neg hinfinite] at hreal
  rw [if_neg (mt hfull.mpr hinfinite)]
  by_cases hsubnormal : @unpackExponent Format.binary64 bits = 0#11
  · rw [if_pos hsubnormal] at hreal
    rw [if_pos (hnone.mp hsubnormal)]
    refine ⟨_, rfl, ?_⟩
    rw [hreal, number_mk]
    by_cases hzero : @unpackMantissa Format.binary64 bits = 0#52
    · rw [dif_pos hzero, hzero]
      split_ifs <;> simp [signed, unpackedValue]
    · rw [dif_neg hzero, hnone.mp hsubnormal]
      rfl
  · rw [if_neg hsubnormal] at hreal
    rw [if_neg (mt hnone.mpr hsubnormal)]
    refine ⟨_, rfl, ?_⟩
    rw [hreal, number_mk, ← toNat_implicit_append]
    rfl

/-- Infinities and NaN have no parts. -/
theorem ofFloat?_of_not_isFinite {x : Float} (hx : ¬x.isFinite = true) : ofFloat? x = none := by
  let bits := x.toBits.toBitVec
  have hexponent := toNat_unpackExponent bits
  have hfull : @unpackExponent Format.binary64 bits = -1#11 := by
    by_contra hnot
    refine hx ?_
    change (UnpackedFloat.unpack Format.binary64 bits).isFinite = true
    unfold UnpackedFloat.unpack
    rw [if_neg hnot]
    split_ifs <;> rfl
  unfold ofFloat?
  change (if bits.toNat / 2 ^ 52 % 2 ^ 11 = 2047 then none else _) = none
  rw [← hexponent, hfull]
  rfl

end Dyadic

namespace Double

/-! ## Doubles without a sign -/

def IsUnsigned (x : Float) : Prop :=
  x.toBits.toNat < 2 ^ 63

instance (x : Float) : Decidable (IsUnsigned x) :=
  inferInstanceAs (Decidable (_ < _))

/-- An unpacked double that has no minus sign. -/
inductive IsPlain : UnpackedFloat → Prop
  | notANumber : IsPlain .notANumber
  | infinity : IsPlain (.infinity .positive)
  | zero : IsPlain (.zero .positive)
  | finite (m : ℕ) (e : ℤ) (hpos : 0 < m) : IsPlain (.finite .positive m e hpos)

theorem isPlain_parts {x : Float} (hx : IsUnsigned x) : IsPlain (parts x) := by
  have hsign := Dyadic.ofBitVec_unpackSign x.toBits.toBitVec
  rw [if_neg (show ¬2 ^ 63 ≤ x.toBits.toBitVec.toNat from not_le.mpr hx)] at hsign
  have hparts : parts x = UnpackedFloat.unpack Format.binary64 x.toBits.toBitVec := rfl
  rw [hparts]
  unfold UnpackedFloat.unpack
  simp only [hsign]
  split_ifs
  · exact .infinity
  · exact .notANumber
  · exact .zero
  · exact .finite _ _ _
  · exact .finite _ _ _

theorem isUnsigned_packComponents {e : BitVec 11} {m : BitVec 52} :
    (packComponents Format.binary64 .positive e m).toNat < 2 ^ 63 := by
  by_contra hlarge
  have hsign := Dyadic.ofBitVec_unpackSign (packComponents Format.binary64 .positive e m)
  rw [unpackSign_packComponents, ofBitVec_toBitVec, if_pos (not_lt.mp hlarge)] at hsign
  exact nomatch hsign

theorem isUnsigned_pack {u : UnpackedFloat} (hu : IsPlain u) :
    IsUnsigned (.ofModel (Float.Model.pack u)) := by
  change (UnpackedFloat.pack Format.binary64 u).toNat < 2 ^ 63
  unfold UnpackedFloat.pack
  cases hu with
  | notANumber => exact isUnsigned_packComponents
  | infinity => exact isUnsigned_packComponents
  | zero => exact isUnsigned_packComponents
  | finite m e hpos =>
      dsimp only
      split_ifs <;> exact isUnsigned_packComponents

theorem isPlain_roundWithAccuracy (m : ℕ) (e : ℤ) (a : Accuracy) :
    IsPlain (roundWithAccuracy Format.binary64 .positive m e a) := by
  unfold roundWithAccuracy
  dsimp only
  split_ifs <;> constructor

theorem isPlain_mul {u v : UnpackedFloat} (hu : IsPlain u) (hv : IsPlain v) :
    IsPlain (UnpackedFloat.mul Format.binary64 u v) := by
  cases hu <;> cases hv <;> first | exact isPlain_roundWithAccuracy _ _ _ | constructor

theorem isPlain_div {u v : UnpackedFloat} (hu : IsPlain u) (hv : IsPlain v) :
    IsPlain (UnpackedFloat.div Format.binary64 u v) := by
  cases hu <;> cases hv <;> first | exact isPlain_roundWithAccuracy _ _ _ | constructor

theorem IsUnsigned.mul {x y : Float} (hx : IsUnsigned x) (hy : IsUnsigned y) :
    IsUnsigned (x * y) :=
  isUnsigned_pack (isPlain_mul (isPlain_parts hx) (isPlain_parts hy))

theorem IsUnsigned.div {x y : Float} (hx : IsUnsigned x) (hy : IsUnsigned y) :
    IsUnsigned (x / y) :=
  isUnsigned_pack (isPlain_div (isPlain_parts hx) (isPlain_parts hy))

theorem isUnsigned_toFloat (n : UInt64) : IsUnsigned n.toFloat := by
  refine isUnsigned_pack (u := UnpackedFloat.normalize Format.binary64 n.toNat 0 .positive) ?_
  unfold UnpackedFloat.normalize
  rcases Nat.eq_zero_or_pos n.toNat with hzero | hpos
  · rw [hzero]
    exact .zero
  · rw [compare_gt_iff_gt.mpr (by exact_mod_cast hpos)]
    exact isPlain_roundWithAccuracy _ _ _

/-- The parts of an unsigned double in canonical form, and the bits that they come from. -/
theorem ofFloat?_of_isUnsigned {x : Float} {d : Dyadic} (hd : Dyadic.ofFloat? x = some d)
    (hx : IsUnsigned x) :
    d.negative = false ∧ d.significand < 2 ^ 53 ∧ -1074 ≤ d.exponent ∧
      (2 ^ 52 ≤ d.significand ∨ d.exponent = -1074) ∧
      (x.toBits.toNat : ℤ) = (d.exponent + 1074) * 2 ^ 52 + d.significand := by
  unfold Dyadic.ofFloat? at hd
  unfold IsUnsigned at hx
  dsimp only [Nat.pow_eq] at hd
  generalize x.toBits.toNat = bits at hd hx
  split_ifs at hd with hfull hzero
  · obtain rfl := Option.some.inj hd
    dsimp only
    refine ⟨decide_eq_false (by omega), by omega, by omega, by omega, by omega⟩
  · obtain rfl := Option.some.inj hd
    dsimp only
    refine ⟨decide_eq_false (by omega), by omega, by omega, by omega, by omega⟩

theorem eq_of_toBits_eq {x y : Float} (h : x.toBits.toNat = y.toBits.toNat) : x = y := by
  have htoBits : x.toModel.toBits = y.toModel.toBits := UInt64.toNat_inj.mp h
  have hmodel : x.toModel = y.toModel := by
    cases hx : x.toModel
    cases hy : y.toModel
    rw [hx, hy] at htoBits
    cases htoBits
    rfl
  exact congrArg Float.ofModel hmodel

/-- Finite doubles without a sign are told apart by their values. -/
theorem eq_of_real_eq {x y : Float} (hx : x.isFinite = true) (hy : y.isFinite = true)
    (hxsign : IsUnsigned x) (hysign : IsUnsigned y) (hreal : real x = real y) : x = y := by
  obtain ⟨d, hd, hdreal⟩ := Dyadic.ofFloat?_of_isFinite hx
  obtain ⟨e, he, hereal⟩ := Dyadic.ofFloat?_of_isFinite hy
  obtain ⟨hdsign, hdbits, hdlow, hdnormal, hdtoBits⟩ := ofFloat?_of_isUnsigned hd hxsign
  obtain ⟨hesign, hebits, helow, henormal, hetoBits⟩ := ofFloat?_of_isUnsigned he hysign
  rw [← hdreal, ← hereal, Dyadic.number, Dyadic.number, hdsign, hesign,
    if_neg Bool.false_ne_true, if_neg Bool.false_ne_true] at hreal
  change (d.significand : ℝ) * 2 ^ d.exponent = e.significand * 2 ^ e.exponent at hreal
  have hcompare := compare_magnitude hdbits hebits hdlow helow hdnormal henormal
  rw [compare_eq_iff_eq.mpr hreal, Ordering.then_eq_eq, compare_eq_iff_eq,
    compare_eq_iff_eq] at hcompare
  obtain ⟨hexponent, hsignificand⟩ := hcompare
  rw [hexponent, hsignificand, ← hetoBits] at hdtoBits
  exact eq_of_toBits_eq (by exact_mod_cast hdtoBits)

end Double

end ChartCompiler
