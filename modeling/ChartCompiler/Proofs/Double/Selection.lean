import ChartCompiler.Proofs.Double.Arithmetic

/-!
# Choosing between doubles

Doubles that are numbers are ordered by `≤`, and `lesser` and `greater` pick the smaller
and the larger one. Few operations leave the numbers: a finite operand never turns a
number into NaN.
-/

namespace ChartCompiler

namespace Double

open Float.Model Float.Model.UnpackedFloat

/-! ## Numbers -/

/-- A number that is not finite is an infinity. -/
theorem parts_of_infinite {x : Float} (hnumber : x.isNaN = false)
    (hinfinite : ¬x.isFinite = true) : ∃ s, parts x = .infinity s := by
  rw [isNaN_eq] at hnumber
  rw [isFinite_eq] at hinfinite
  cases hparts : parts x with
  | notANumber =>
      rw [hparts] at hnumber
      exact nomatch hnumber
  | infinity s => exact ⟨s, rfl⟩
  | zero s =>
      rw [hparts] at hinfinite
      exact absurd rfl hinfinite
  | finite s m e hpos =>
      rw [hparts] at hinfinite
      exact absurd rfl hinfinite

theorem isNaN_of_infinity {u : UnpackedFloat} {s : Sign} (hu : u = .infinity s) :
    (Float.ofModel (Float.Model.pack u)).isNaN = false := by
  subst hu
  cases s <;> rfl

theorem isNaN_add {x y : Float} (hx : x.isNaN = false) (hy : y.isFinite = true) :
    (x + y).isNaN = false := by
  by_cases hfinite : x.isFinite = true
  · exact (rounds_add hfinite hy).isNaN
  · obtain ⟨s, hparts⟩ := parts_of_infinite hx hfinite
    have hsum : UnpackedFloat.add Format.binary64 (parts x) (parts y) = .infinity s := by
      rw [hparts]
      rcases parts_cases hy with ⟨t, hyparts, -⟩ | ⟨t, n, e, hn, hyparts, -⟩
      · rw [hyparts]
        rfl
      · rw [hyparts]
        rfl
    exact isNaN_of_infinity hsum

theorem isNaN_div {x y : Float} (hx : x.isNaN = false) (hy : y.isFinite = true)
    (hzero : real y ≠ 0) : (x / y).isNaN = false := by
  by_cases hfinite : x.isFinite = true
  · exact (rounds_div hfinite hy hzero).isNaN
  · obtain ⟨s, hparts⟩ := parts_of_infinite hx hfinite
    rcases parts_cases hy with ⟨t, -, hyreal⟩ | ⟨t, n, e, hn, hyparts, -⟩
    · exact absurd hyreal hzero
    · have hquotient : UnpackedFloat.div Format.binary64 (parts x) (parts y) =
          .infinity (s / t) := by
        rw [hparts, hyparts]
        rfl
      exact isNaN_of_infinity hquotient

/-! ## Order -/

section Order

variable {a b c : Float}

theorem le_self (ha : a.isNaN = false) : a ≤ a :=
  (le_iff a a).mpr ⟨ha, ha, le_rfl⟩

theorem le_of_le_of_le (hab : a ≤ b) (hbc : b ≤ c) : a ≤ c := by
  obtain ⟨ha, -, hlow⟩ := (le_iff a b).mp hab
  obtain ⟨-, hc, hhigh⟩ := (le_iff b c).mp hbc
  exact (le_iff a c).mpr ⟨ha, hc, hlow.trans hhigh⟩

theorem le_of_not_lt (ha : a.isNaN = false) (hb : b.isNaN = false) (hab : ¬a < b) : b ≤ a := by
  refine (le_iff b a).mpr ⟨hb, ha, ?_⟩
  by_contra hvalues
  exact hab ((lt_iff a b).mpr ⟨ha, hb, not_le.mp hvalues⟩)

theorem le_of_lt' (hab : a < b) : a ≤ b := by
  obtain ⟨ha, hb, hvalues⟩ := (lt_iff a b).mp hab
  exact (le_iff a b).mpr ⟨ha, hb, hvalues.le⟩

/-- Real numbers are ordered as their doubles are. -/
theorem real_le_real_iff (ha : a.isFinite = true) (hb : b.isFinite = true) :
    a ≤ b ↔ real a ≤ real b := by
  rw [le_iff, value_of_isFinite ha, value_of_isFinite hb, EReal.coe_le_coe_iff]
  exact ⟨fun hle => hle.2.2, fun hle => ⟨isNaN_of_isFinite ha, isNaN_of_isFinite hb, hle⟩⟩

theorem real_lt_real_iff (ha : a.isFinite = true) (hb : b.isFinite = true) :
    a < b ↔ real a < real b := by
  rw [lt_iff, value_of_isFinite ha, value_of_isFinite hb, EReal.coe_lt_coe_iff]
  exact ⟨fun hlt => hlt.2.2, fun hlt => ⟨isNaN_of_isFinite ha, isNaN_of_isFinite hb, hlt⟩⟩

/-- The smaller of two numbers is one of them, and at most either. -/
theorem lesser_spec (ha : a.isNaN = false) (hb : b.isNaN = false) :
    (lesser a b = a ∨ lesser a b = b) ∧ lesser a b ≤ a ∧ lesser a b ≤ b := by
  unfold lesser
  rw [ha, if_neg Bool.false_ne_true]
  split_ifs with hlt
  · exact ⟨.inr rfl, le_of_lt' hlt, le_self hb⟩
  · exact ⟨.inl rfl, le_self ha, le_of_not_lt hb ha hlt⟩

theorem greater_spec (ha : a.isNaN = false) (hb : b.isNaN = false) :
    (greater a b = a ∨ greater a b = b) ∧ a ≤ greater a b ∧ b ≤ greater a b := by
  unfold greater
  rw [ha, if_neg Bool.false_ne_true]
  split_ifs with hlt
  · exact ⟨.inr rfl, le_of_lt' hlt, le_self hb⟩
  · exact ⟨.inl rfl, le_self ha, le_of_not_lt ha hb hlt⟩

end Order

/-- Negative numbers are raised to zero. -/
theorem real_greater_zero {x : Float} (hx : x.isFinite = true) :
    (greater x 0).isFinite = true ∧ real (greater x 0) = max (real x) 0 := by
  have hzero : (0 : Float).isFinite = true := rfl
  unfold greater
  rw [isNaN_of_isFinite hx, if_neg Bool.false_ne_true]
  split_ifs with hneg
  · rw [real_lt_real_iff hx hzero, real_zero] at hneg
    exact ⟨hzero, by rw [real_zero, max_eq_right hneg.le]⟩
  · rw [real_lt_real_iff hx hzero, real_zero] at hneg
    exact ⟨hx, (max_eq_left (not_lt.mp hneg)).symm⟩

/-- Numbers are moved into the unit interval. -/
theorem clamp_unit {p : Float} (hp : p.isFinite = true) :
    (clamp 0 1 p).isFinite = true ∧ 0 ≤ real (clamp 0 1 p) ∧ real (clamp 0 1 p) ≤ 1 := by
  have hzero : (0 : Float).isFinite = true := rfl
  have hone : (1 : Float).isFinite = true := rfl
  unfold clamp
  dsimp only
  split_ifs with hlow hhigh hhigh
  · exact ⟨hone, by rw [real_unit]; norm_num, real_unit.le⟩
  · exact ⟨hzero, real_zero.ge, by rw [real_zero]; norm_num⟩
  · exact ⟨hone, by rw [real_unit]; norm_num, real_unit.le⟩
  · rw [real_lt_real_iff hp hzero, real_zero] at hlow
    rw [real_lt_real_iff hone hp, real_unit] at hhigh
    exact ⟨hp, not_lt.mp hlow, not_lt.mp hhigh⟩

/-! ## Whole numbers -/

/-- A magnitude loses its places behind the point. -/
theorem toInt_finite (s : Sign) {m : ℕ} (e : ℤ) (hm : 0 < m) (low high : ℤ) :
    (UnpackedFloat.finite s m e hm).toInt low high = s.apply ⌊(m : ℝ) * 2 ^ e⌋ := by
  have hshows := (shows_exact (m <<< (e - 0).toNat)).shiftRight
    (0 - (e - ((e - 0).toNat : ℤ))).toNat
  have hvalue : ((m <<< (e - 0).toNat : ℕ) : ℝ) / 2 ^ (0 - (e - ((e - 0).toNat : ℤ))).toNat =
      m * 2 ^ e := by
    have hpow : (2 : ℝ) ^ (e - 0).toNat =
        2 ^ e * 2 ^ (0 - (e - ((e - 0).toNat : ℤ))).toNat := by
      rw [← zpow_natCast, ← zpow_natCast, ← zpow_two_add]
      congr 1
      omega
    rw [div_eq_iff (by positivity), Nat.shiftLeft_eq]
    push_cast
    rw [hpow]
    ring
  rw [← hvalue, hshows.floor_eq]
  rfl

theorem toNat_ofNatClamp (n : ℕ) : (UInt64.ofNatClamp n).toNat = min n (2 ^ 64 - 1) := by
  unfold UInt64.ofNatClamp
  split_ifs with hfits
  · rw [UInt64.toNat_ofNatLT]
    have hword : n < 2 ^ 64 := hfits
    omega
  · rw [UInt64.toNat_ofNatLT]
    have hword : ¬n < 2 ^ 64 := hfits
    have hsize : UInt64.size = 2 ^ 64 := rfl
    omega

/-- The whole part is taken of numbers up to the largest word. -/
theorem floorNat_eq {x : Float} (hx : x.isFinite = true) :
    floorNat x = min ⌊real x⌋₊ (2 ^ 64 - 1) := by
  have hword : floorNat x =
      min ((parts x).toInt 0 (UInt64.size - 1)).toNat (2 ^ 64 - 1) :=
    toNat_ofNatClamp _
  rw [hword]
  rcases parts_cases hx with ⟨s, hparts, hreal⟩ | ⟨s, m, e, hm, hparts, hreal, -⟩
  · rw [hparts, hreal, Nat.floor_zero]
    rfl
  · rw [hparts, hreal, toInt_finite]
    have hmagnitude := magnitude_nonneg m e
    cases s with
    | negative =>
        have hfloor : 0 ≤ ⌊(m : ℝ) * 2 ^ e⌋ := Int.floor_nonneg.mpr hmagnitude
        have hzero : ⌊signed .negative ((m : ℝ) * 2 ^ e)⌋₊ = 0 :=
          Nat.floor_of_nonpos (neg_nonpos.mpr hmagnitude)
        rw [hzero, Sign.apply, Int.toNat_of_nonpos (by omega)]
    | positive =>
        rw [Sign.apply, signed, Int.floor_toNat]

theorem floorNat_eq_floor {x : Float} (hx : x.isFinite = true) (hhigh : real x ≤ 2 ^ (63 : ℤ)) :
    floorNat x = ⌊real x⌋₊ := by
  have hword : ⌊real x⌋₊ ≤ 2 ^ 63 := Nat.floor_le_of_le (by exact_mod_cast hhigh)
  rw [floorNat_eq hx]
  omega

/-- The whole part of a double is a double. -/
theorem real_ofNat_floorNat {x : Float} (hx : x.isFinite = true) (hlow : 0 ≤ real x)
    (hhigh : real x ≤ 2 ^ (63 : ℤ)) :
    (Float.ofNat (floorNat x)).isFinite = true ∧
      real (Float.ofNat (floorNat x)) = ⌊real x⌋₊ := by
  rw [floorNat_eq_floor hx hhigh]
  rcases le_or_gt ⌊real x⌋₊ (2 ^ 53) with hsmall | hlarge
  · exact exact_ofNat hsmall
  · have hbits : 2 ^ (52 : ℤ) ≤ |real x| := by
      rw [abs_of_nonneg hlow]
      refine le_trans ?_ (Nat.floor_le hlow)
      exact_mod_cast (by omega : 2 ^ 52 ≤ ⌊real x⌋₊)
    obtain ⟨k, hk⟩ := exists_intCast_of_isDouble (isDouble_real hx) hbits
    have hwhole : (⌊real x⌋₊ : ℝ) = real x := by
      have hpos : 0 ≤ k := by
        rw [hk] at hlow
        exact_mod_cast hlow
      lift k to ℕ using hpos
      rw [hk, Int.cast_natCast, Nat.floor_natCast]
    refine (rounds_ofNat _).exact ?_ ?_
    · rw [hwhole]
      exact isDouble_real hx
    · rw [hwhole]
      exact abs_real_lt hx

/-- Between whole numbers the whole part is less than the number. -/
theorem ofNat_floorNat_lt {x : Float} (hbetween : floorNat x ≠ ceilNat x) :
    Float.ofNat (floorNat x) < x := by
  unfold ceilNat at hbetween
  by_contra hnot
  rw [if_neg hnot] at hbetween
  exact hbetween rfl

theorem real_le_ceilNat {x : Float} (hx : x.isFinite = true) (hle : real x ≤ 2 ^ 53) :
    real x ≤ ceilNat x := by
  have hsmall : floorNat x ≤ 2 ^ 53 := by
    rw [floorNat_eq hx]
    exact (min_le_left _ _).trans (Nat.floor_le_of_le (by exact_mod_cast hle))
  obtain ⟨hwhole, hreal⟩ := exact_ofNat hsmall
  unfold ceilNat
  dsimp only
  split_ifs with hbelow
  · have hfloor : floorNat x = ⌊real x⌋₊ := by
      rw [floorNat_eq hx] at hsmall ⊢
      omega
    rw [hfloor]
    push_cast
    exact (Nat.lt_floor_add_one _).le
  · rwa [real_lt_real_iff hwhole hx, hreal, not_lt] at hbelow

end Double

end ChartCompiler
