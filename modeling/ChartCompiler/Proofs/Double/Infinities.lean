import ChartCompiler.Proofs.Double.Signs
import ChartCompiler.Proofs.Double.Sums

/-!
# Arithmetic with infinities

What sums, differences and products say about order where an operand or the result may be infinite.
A result that is a number has operands that are numbers, and infinities stay what they are unless
they meet their opposite.
-/

namespace ChartCompiler.Double

open Float.Model Float.Model.UnpackedFloat

/-! ## Numbers of one value -/

/-- Numbers of one value. They may still be the two zeros. -/
structure SameValue (x y : Float) : Prop where
  left : x.isNaN = false
  right : y.isNaN = false
  value : value x = value y

variable {x y s : Float}

namespace SameValue

theorem le_iff_left (h : SameValue x y) (v : Float) : x ≤ v ↔ y ≤ v := by
  rw [le_iff, le_iff, h.left, h.right, h.value]

theorem le_iff_right (h : SameValue x y) (v : Float) : v ≤ x ↔ v ≤ y := by
  rw [le_iff, le_iff, h.left, h.right, h.value]

end SameValue

theorem parts_sum {t : Sign}
    (hadd : UnpackedFloat.add Format.binary64 (parts x) (parts y) = .infinity t) :
    parts (x + y) = .infinity t := by
  change parts (.ofModel (Float.Model.pack
    (UnpackedFloat.add Format.binary64 (parts x) (parts y)))) = _
  rw [hadd, parts_pack_infinity]

/-- Nothing finite leads away from an infinity. -/
theorem parts_add_of_infinity {t : Sign} (hx : parts x = .infinity t) (hs : s.isFinite = true) :
    parts (x + s) = .infinity t := by
  refine parts_sum ?_
  rw [hx]
  rcases parts_cases hs with ⟨u, hsparts, -⟩ | ⟨u, n, e, hn, hsparts, -⟩
  · rw [hsparts]
    rfl
  · rw [hsparts]
    rfl

theorem sameValue_of_infinity {t : Sign} (hx : parts x = .infinity t)
    (hy : parts y = .infinity t) : SameValue x y where
  left := isNaN_of_parts hx
  right := isNaN_of_parts hy
  value := by rw [value, value, hx, hy]

theorem eq_of_infinity {t : Sign} (hx : parts x = .infinity t) (hy : parts y = .infinity t) :
    x = y := by
  have hsame := sameValue_of_infinity hx hy
  refine eq_of_value_eq hsame.left hsame.right hsame.value ?_
  have hsign : some (if isSigned x then Sign.negative else .positive) =
      some (if isSigned y then Sign.negative else .positive) := by
    rw [← sign?_parts hsame.left, ← sign?_parts hsame.right, hx, hy]
  cases hx : isSigned x <;> cases hy : isSigned y <;> rw [hx, hy] at hsign <;>
    first | rfl | exact nomatch hsign

theorem SameValue.add (h : SameValue x y) (hs : s.isFinite = true) :
    SameValue (x + s) (y + s) := by
  refine ⟨isNaN_add h.left hs, isNaN_add h.right hs, ?_⟩
  by_cases hfinite : x.isFinite = true
  · have hother := isFinite_of_value_eq h.right h.value hfinite
    have hreal : real x = real y := by rw [real, real, h.value]
    rw [(rounds_add hfinite hs).value, (rounds_add hother hs).value, hreal]
  · obtain ⟨t, ht⟩ := parts_of_infinite h.left hfinite
    obtain ⟨u, hu⟩ := parts_of_infinite h.right
      (mt (isFinite_of_value_eq h.left h.value.symm) hfinite)
    rw [(sameValue_of_infinity (parts_add_of_infinity ht hs) ht).value, h.value,
      (sameValue_of_infinity (parts_add_of_infinity hu hs) hu).value]

theorem sameValue_add_zero (hx : x.isNaN = false) : SameValue (x + 0) x := by
  by_cases hfinite : x.isFinite = true
  · have hsum := rounds_add (y := 0) hfinite rfl
    rw [real_zero, add_zero] at hsum
    exact ⟨hsum.isNaN, hx, by rw [hsum.value, value_eq_rounded hfinite]⟩
  · obtain ⟨t, hparts⟩ := parts_of_infinite hx hfinite
    exact sameValue_of_infinity (parts_add_of_infinity hparts rfl) hparts

/-- A step of finite size, from a number that may be infinite. -/
theorem steps_add_of_isFinite (hx : x.isNaN = false) (hs : s.isFinite = true) :
    Steps x s (x + s) := by
  by_cases hfinite : x.isFinite = true
  · exact steps_add hfinite (isNaN_of_isFinite hs)
  · obtain ⟨t, hparts⟩ := parts_of_infinite hx hfinite
    have hsame := sameValue_of_infinity (parts_add_of_infinity hparts hs) hparts
    exact ⟨hsame.left, fun _ => (hsame.le_iff_right x).mpr (le_self hx),
      fun _ => (hsame.le_iff_left x).mpr (le_self hx)⟩

/-! ## Operands -/

theorem isNaN_pack {u : UnpackedFloat}
    (hu : (Float.ofModel (Float.Model.pack u)).isNaN = false) : u.isNaN = false := by
  cases u with
  | notANumber => exact absurd hu (by decide)
  | infinity s => rfl
  | zero s => rfl
  | finite s m e hm => rfl

theorem isNaN_of_add (hsum : (x + y).isNaN = false) : x.isNaN = false ∧ y.isNaN = false := by
  have hparts : (UnpackedFloat.add Format.binary64 (parts x) (parts y)).isNaN = false :=
    isNaN_pack hsum
  rw [isNaN_eq, isNaN_eq]
  cases hx : parts x <;> cases hy : parts y <;> rw [hx, hy] at hparts
  all_goals first | exact ⟨rfl, rfl⟩ | exact absurd hparts.symm Bool.false_ne_true

theorem isNaN_of_mul (hproduct : (x * y).isNaN = false) : x.isNaN = false ∧ y.isNaN = false := by
  have hparts : (UnpackedFloat.mul Format.binary64 (parts x) (parts y)).isNaN = false :=
    isNaN_pack hproduct
  rw [isNaN_eq, isNaN_eq]
  cases hx : parts x <;> cases hy : parts y <;> rw [hx, hy] at hparts
  all_goals first | exact ⟨rfl, rfl⟩ | exact absurd hparts.symm Bool.false_ne_true

/-! ## Results -/

theorem parts_of_nonneg (hx : 0 ≤ x) (hfinite : ¬x.isFinite = true) :
    parts x = .infinity .positive := by
  obtain ⟨t, ht⟩ := parts_of_infinite ((le_iff 0 x).mp hx).2.1 hfinite
  cases t with
  | positive => exact ht
  | negative =>
      have hle := ((le_iff 0 x).mp hx).2.2
      rw [value_bot ht, value_zero, le_bot_iff] at hle
      exact absurd hle EReal.zero_ne_bot

/-- An infinity is not brought back by anything that it can be added to. -/
theorem parts_add_top (h : parts x = .infinity .positive ∨ parts y = .infinity .positive)
    (hsum : (x + y).isNaN = false) : parts (x + y) = .infinity .positive := by
  have hnumber : (UnpackedFloat.add Format.binary64 (parts x) (parts y)).isNaN = false :=
    isNaN_pack hsum
  refine parts_sum ?_
  rcases h with hx | hy
  · rw [hx] at hnumber ⊢
    cases hy : parts y with
    | infinity t =>
        rw [hy] at hnumber
        cases t with
        | positive => rfl
        | negative => exact absurd hnumber.symm Bool.false_ne_true
    | notANumber =>
        rw [hy] at hnumber
        exact absurd hnumber.symm Bool.false_ne_true
    | zero t => rfl
    | finite t m e hm => rfl
  · rw [hy] at hnumber ⊢
    cases hx : parts x with
    | infinity t =>
        rw [hx] at hnumber
        cases t with
        | positive => rfl
        | negative => exact absurd hnumber.symm Bool.false_ne_true
    | notANumber =>
        rw [hx] at hnumber
        exact absurd hnumber.symm Bool.false_ne_true
    | zero t => rfl
    | finite t m e hm => rfl

theorem not_le_zero_of_top (hx : parts x = .infinity .positive) : ¬x ≤ 0 := by
  rw [le_iff, value_top hx, value_zero, top_le_iff]
  exact fun h => EReal.zero_ne_top h.2.2

/-- Doubles that differ do so by the least double at least. -/
theorem finest_le_sub {a b : ℝ} (ha : IsDouble a) (hb : IsDouble b) (hlt : b < a) :
    finest ≤ a - b := by
  have hunit : 0 < finest := zpow_two_pos _
  obtain ⟨k, rfl⟩ := exists_finest ha
  obtain ⟨l, rfl⟩ := exists_finest hb
  have hkl : (1 : ℝ) ≤ k - l := by
    have hless : (l : ℝ) < k := lt_of_mul_lt_mul_right hlt hunit.le
    have hint : l + 1 ≤ k := by exact_mod_cast hless
    have hcast : (l : ℝ) + 1 ≤ k := by exact_mod_cast hint
    linarith
  rw [← sub_mul]
  exact le_mul_of_one_le_left hunit.le hkl

theorem rounded_sub_pos {a b : ℝ} (ha : IsDouble a) (hb : IsDouble b) (hlt : b < a) :
    0 < rounded (a - b) := by
  have hunit : 0 < finest := zpow_two_pos _
  have hleast : nearest finest = finest := nearest_of_isDouble (isDouble_zpow le_rfl)
  have hrounded : rounded finest = (finest : ℝ) := by
    rw [rounded_of_lt, hleast]
    rw [hleast, abs_of_pos hunit]
    exact zpow_lt_limit (by norm_num)
  calc
    (0 : EReal) < (finest : ℝ) := EReal.coe_pos.mpr hunit
    _ = rounded finest := hrounded.symm
    _ ≤ rounded (a - b) := rounded_mono (finest_le_sub ha hb hlt)

/-- A difference that is not positive does not lead down. -/
theorem le_of_difference (hle : x - y ≤ 0) : x ≤ y := by
  have hnumber := ((le_iff (x - y) 0).mp hle).1
  rw [sub_eq_add_neg] at hle hnumber
  obtain ⟨hx, hy⟩ := isNaN_of_add hnumber
  rw [isNaN_neg] at hy
  by_contra hnot
  have hlt := (not_le_iff hx hy).mp hnot
  have hvalues := ((lt_iff y x).mp hlt).2.2
  have htop : ¬(parts x = .infinity .positive ∨ parts (-y) = .infinity .positive) :=
    fun h => not_le_zero_of_top (parts_add_top h hnumber) hle
  have hxfinite : x.isFinite = true := by
    by_contra hinfinite
    obtain ⟨t, ht⟩ := parts_of_infinite hx hinfinite
    cases t with
    | positive => exact htop (.inl ht)
    | negative =>
        rw [value_bot ht] at hvalues
        exact not_lt_bot hvalues
  have hyfinite : y.isFinite = true := by
    by_contra hinfinite
    obtain ⟨t, ht⟩ := parts_of_infinite hy hinfinite
    cases t with
    | positive =>
        rw [value_top ht] at hvalues
        exact not_top_lt hvalues
    | negative => exact htop (.inr (by rw [parts_neg, ht]; rfl))
  have hdifference := rounds_add hxfinite ((isFinite_neg y).trans hyfinite)
  have hrounded := ((le_iff _ _).mp hle).2.2
  rw [hdifference.value, value_zero, real_neg,
    show real x + -real y = real x - real y by ring] at hrounded
  exact absurd hrounded (not_le.mpr (rounded_sub_pos (isDouble_real hxfinite)
    (isDouble_real hyfinite) ((real_lt_real_iff hyfinite hxfinite).mp hlt)))

/-! ## Products -/

theorem nonneg_cases (hx : 0 ≤ x) :
    parts x = .infinity .positive ∨ (∃ t, parts x = .zero t) ∨
      ∃ m e hm, parts x = .finite .positive m e hm := by
  by_cases hfinite : x.isFinite = true
  · rcases parts_cases hfinite with ⟨t, hparts, -⟩ | ⟨t, m, e, hm, hparts, hreal, -⟩
    · exact .inr (.inl ⟨t, hparts⟩)
    · cases t with
      | positive => exact .inr (.inr ⟨m, e, hm, hparts⟩)
      | negative =>
          rw [real_le_real_iff rfl hfinite, real_zero, hreal] at hx
          have hpos : (0 : ℝ) < m * 2 ^ e := mul_pos (by exact_mod_cast hm) (zpow_two_pos e)
          exact absurd hx (not_le.mpr (neg_lt_zero.mpr hpos))
  · exact .inl (parts_of_nonneg hx hfinite)

theorem isSigned_of_pos (hx : 0 < x) : isSigned x = false := by
  have hnumber := ((lt_iff 0 x).mp hx).2.1
  have hsign : sign? (parts x) = some .positive := by
    rcases nonneg_cases (le_of_lt' hx) with hparts | ⟨t, hparts⟩ | ⟨m, e, hm, hparts⟩
    · rw [hparts]
      rfl
    · have hvalue := ((lt_iff 0 x).mp hx).2.2
      rw [value_zero, value, hparts] at hvalue
      exact absurd hvalue (lt_irrefl 0)
    · rw [hparts]
      rfl
  rw [sign?_parts hnumber] at hsign
  cases hsigned : isSigned x with
  | false => rfl
  | true =>
      rw [hsigned, if_pos rfl] at hsign
      cases hsign

/-- Positive numbers are told apart by their reals. -/
theorem eq_of_pos (hx : 0 < x) (hy : 0 < y) (hxfinite : x.isFinite = true)
    (hyfinite : y.isFinite = true) (hreal : real x = real y) : x = y := by
  refine eq_of_value_eq (isNaN_of_isFinite hxfinite) (isNaN_of_isFinite hyfinite) ?_
    ((isSigned_of_pos hx).trans (isSigned_of_pos hy).symm)
  rw [value_of_isFinite hxfinite, value_of_isFinite hyfinite, hreal]

theorem nonneg_of_top (hx : parts x = .infinity .positive) : 0 ≤ x := by
  refine (le_iff 0 x).mpr ⟨rfl, isNaN_of_parts hx, ?_⟩
  rw [value_top hx]
  exact le_top

theorem parts_product {t : Sign}
    (hmul : UnpackedFloat.mul Format.binary64 (parts x) (parts y) = .infinity t) :
    parts (x * y) = .infinity t := by
  change parts (.ofModel (Float.Model.pack
    (UnpackedFloat.mul Format.binary64 (parts x) (parts y)))) = _
  rw [hmul, parts_pack_infinity]

theorem mul_infinity_of_pos {q : Float} (hq : 0 < q) (hfinite : q.isFinite = true) :
    infinity * q = infinity := by
  rw [real_lt_real_iff rfl hfinite, real_zero] at hq
  refine eq_of_infinity (t := .positive) (parts_product ?_) rfl
  have hparts : parts infinity = .infinity .positive := rfl
  rw [hparts]
  rcases parts_cases hfinite with ⟨t, -, hreal⟩ | ⟨t, m, e, hm, hparts, hreal, -⟩
  · exact absurd hreal hq.ne'
  · rw [hparts]
    cases t with
    | positive => rfl
    | negative =>
        rw [hreal] at hq
        have hpos : (0 : ℝ) < m * 2 ^ e := mul_pos (by exact_mod_cast hm) (zpow_two_pos e)
        exact absurd hq (neg_lt_zero.mpr hpos).not_gt

/-- What is not negative has products that are not negative, if they are numbers. -/
theorem mul_nonneg_of_isNaN (hx : 0 ≤ x) (hy : 0 ≤ y) (hproduct : (x * y).isNaN = false) :
    0 ≤ x * y := by
  have hnumber : (UnpackedFloat.mul Format.binary64 (parts x) (parts y)).isNaN = false :=
    isNaN_pack hproduct
  by_cases hxfinite : x.isFinite = true
  · by_cases hyfinite : y.isFinite = true
    · rw [real_le_real_iff rfl hxfinite, real_zero] at hx
      rw [real_le_real_iff rfl hyfinite, real_zero] at hy
      refine (rounds_mul hxfinite hyfinite).ge rfl ?_
      rw [real_zero]
      exact mul_nonneg hx hy
    · have hytop := parts_of_nonneg hy hyfinite
      rcases nonneg_cases hx with hparts | ⟨t, hparts⟩ | ⟨m, e, hm, hparts⟩
      · exact nonneg_of_top (parts_product (by rw [hparts, hytop]; rfl))
      · rw [hparts, hytop] at hnumber
        exact absurd hnumber.symm Bool.false_ne_true
      · exact nonneg_of_top (parts_product (by rw [hparts, hytop]; rfl))
  · have hxtop := parts_of_nonneg hx hxfinite
    rcases nonneg_cases hy with hparts | ⟨t, hparts⟩ | ⟨m, e, hm, hparts⟩
    · exact nonneg_of_top (parts_product (by rw [hxtop, hparts]; rfl))
    · rw [hxtop, hparts] at hnumber
      exact absurd hnumber.symm Bool.false_ne_true
    · exact nonneg_of_top (parts_product (by rw [hxtop, hparts]; rfl))

/-! ## Sums of what is not negative -/

/-- A sum is not less than its last part if what comes before is not negative. -/
theorem le_add_of_nonneg (hx : 0 ≤ x) (hy : y.isFinite = true) : y ≤ x + y := by
  by_cases hfinite : x.isFinite = true
  · rw [real_le_real_iff rfl hfinite, real_zero] at hx
    exact (rounds_add hfinite hy).ge hy (by linarith)
  · have hxtop := parts_of_nonneg hx hfinite
    have hsum := parts_add_of_infinity hxtop hy
    refine (le_iff y (x + y)).mpr ⟨isNaN_of_isFinite hy, isNaN_of_parts hsum, ?_⟩
    rw [value_top hsum]
    exact le_top

/-- A running sum of numbers that are not negative is not less than any of them. -/
theorem le_foldl_add {values : List Float} {start : Float} (hstart : 0 ≤ start)
    (hvalues : ∀ v ∈ values, v.isFinite = true ∧ 0 ≤ v) :
    start ≤ values.foldl (· + ·) start ∧ ∀ v ∈ values, v ≤ values.foldl (· + ·) start := by
  induction values generalizing start with
  | nil => exact ⟨le_self ((le_iff 0 start).mp hstart).2.1, nofun⟩
  | cons v rest ih =>
      obtain ⟨⟨hfinite, hv⟩, hrest⟩ := List.forall_mem_cons.mp hvalues
      have hstep := (steps_add_of_isFinite ((le_iff 0 start).mp hstart).2.1 hfinite).up hv
      obtain ⟨hlow, hothers⟩ := ih (le_of_le_of_le hstart hstep) hrest
      exact ⟨le_of_le_of_le hstep hlow, List.forall_mem_cons.mpr
        ⟨le_of_le_of_le (le_add_of_nonneg hstart hfinite) hlow, hothers⟩⟩

end ChartCompiler.Double
