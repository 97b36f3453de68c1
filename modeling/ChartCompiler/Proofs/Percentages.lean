import ChartCompiler.Expression.Position
import ChartCompiler.Plot.Facet
import ChartCompiler.Proofs.Double.Decimals
import Mathlib.Data.List.DropRight

/-!
# Percentages read back

Positions are written as percentages with at most two decimal places. Such a text is read
back as a numeral and a percent sign, and the number that it writes is the double's,
rounded to two places: `percent?_percentText`. As a coordinate it is a percentage. Any other
number of places shows the double rounded to these.
-/

namespace ChartCompiler

open Float.Model Float.Model.UnpackedFloat Double

theorem digitsValue_eq (digits : List Char) :
    digitsValue digits = Nat.ofDigitChars 10 digits 0 :=
  Nat.ofDigitChars_eq_foldl.symm

/-! ## Rounding to places -/

namespace Double

def isSigned (x : Float) : Bool :=
  ¬IsUnsigned x

theorem isSigned_of_ofFloat? {x : Float} {d : Dyadic} (hd : Dyadic.ofFloat? x = some d) :
    d.negative = isSigned x := by
  unfold Dyadic.ofFloat? at hd
  unfold isSigned IsUnsigned
  dsimp only [Nat.pow_eq] at hd
  split_ifs at hd
  · obtain rfl := Option.some.inj hd
    exact decide_eq_decide.mpr not_lt.symm
  · obtain rfl := Option.some.inj hd
    exact decide_eq_decide.mpr not_lt.symm

end Double

namespace Decimal

theorem roundHalfEven_eq (num : ℕ) {den : ℕ} (hden : 0 < den) :
    (roundHalfEven num den : ℤ) = halfEven (num / den) := by
  have hpos : (0 : ℝ) < den := by exact_mod_cast hden
  have hrest := Nat.mod_lt num hden
  have hfloor : ⌊(num / den : ℝ)⌋ = (num / den : ℕ) := by
    rw [natCast_div_eq num hden, Int.floor_natCast_add, Int.floor_eq_zero_iff.mpr, add_zero]
    exact ⟨by positivity, (div_lt_one hpos).mpr (by exact_mod_cast hrest)⟩
  have hlow : ((num % den : ℕ) : ℝ) / den < 1 / 2 ↔ 2 * (num % den) < den := by
    rw [div_lt_div_iff₀ hpos two_pos, one_mul, mul_comm]
    exact_mod_cast Iff.rfl
  have hhigh : 1 / 2 < ((num % den : ℕ) : ℝ) / den ↔ den < 2 * (num % den) := by
    rw [div_lt_div_iff₀ two_pos hpos, one_mul, mul_comm]
    exact_mod_cast Iff.rfl
  unfold halfEven roundHalfEven Tie.choose
  rw [hfloor, Int.cast_natCast, natCast_div_eq num hden, add_sub_cancel_left]
  simp only [hlow, hhigh]
  split_ifs <;> rfl

/-- The digits of a double with a number of decimal places. -/
theorem fixed_of_isFinite (places : ℕ) {x : Float} (hx : x.isFinite = true) :
    ∃ n : ℕ,
      fixed places x = String.ofList
        (if isSigned x then '-' :: placed n places else placed n places) ∧
      (if isSigned x then -(n : ℤ) else n) = halfEven (real x * 10 ^ places) := by
  obtain ⟨d, hd, hnumber⟩ := Dyadic.ofFloat?_of_isFinite hx
  have hsign := isSigned_of_ofFloat? hd
  have hmagnitude : ((d.significand * Nat.pow 2 d.exponent.toNat * Nat.pow 10 places : ℕ) : ℝ) /
      (Nat.pow 2 (-d.exponent).toNat : ℕ) = d.significand * 2 ^ d.exponent * 10 ^ places := by
    have hscale : (2 : ℝ) ^ d.exponent.toNat = 2 ^ d.exponent * 2 ^ (-d.exponent).toNat := by
      rw [← zpow_natCast, ← zpow_natCast, ← zpow_two_add]
      congr 1
      omega
    simp only [Nat.pow_eq, Nat.cast_mul, Nat.cast_pow, Nat.cast_ofNat]
    rw [div_eq_iff (by positivity), hscale]
    ring
  have hden : 0 < Nat.pow 2 (-d.exponent).toNat := Nat.pow_pos (by norm_num)
  have hround := roundHalfEven_eq
    (d.significand * Nat.pow 2 d.exponent.toNat * Nat.pow 10 places) hden
  rw [hmagnitude] at hround
  refine ⟨roundHalfEven (d.significand * Nat.pow 2 d.exponent.toNat *
    Nat.pow 10 places) (Nat.pow 2 (-d.exponent).toNat), ?_, ?_⟩
  · unfold fixed
    rw [hd, ← hsign]
  · rw [← hsign, ← hnumber, Dyadic.number, twoPow]
    split_ifs with hneg
    · rw [hround, ← halfEven_neg, neg_mul]
    · exact hround

/-- Digits before and after a point. -/
theorem placed_eq (n : ℕ) {places : ℕ} (hplaces : 0 < places) :
    ∃ whole fraction, placed n places = whole ++ '.' :: fraction ∧ whole ≠ [] ∧
      fraction.length = places ∧ (∀ c ∈ whole ++ fraction, c.isDigit = true) ∧
      digitsValue (whole ++ fraction) = n := by
  let digits := (Nat.repr n).toList
  let padded := zeros (places + 1 - digits.length) ++ digits
  have htext : digits = Nat.toDigits 10 n := by
    rw [show digits = n.repr.toList from rfl, Nat.repr_eq_ofList_toDigits, String.toList_ofList]
  have hlength : places + 1 ≤ padded.length := by
    rw [List.length_append, zeros, List.length_replicate]
    omega
  have hdigits : ∀ c ∈ padded, c.isDigit = true := by
    intro c hc
    rcases List.mem_append.mp hc with hzero | hdigit
    · rw [List.eq_of_mem_replicate hzero]
      rfl
    · rw [htext] at hdigit
      exact Nat.isDigit_of_mem_toDigits (by norm_num) le_rfl hdigit
  have hvalue : digitsValue padded = n := by
    rw [digitsValue_eq, Nat.ofDigitChars_append, zeros, Nat.ofDigitChars_replicate_zero,
      mul_zero, htext, Nat.ofDigitChars_ten_toDigits]
  refine ⟨padded.take (padded.length - places), padded.drop (padded.length - places), ?_, ?_,
    ?_, ?_, ?_⟩
  · unfold placed
    rw [if_neg hplaces.ne']
  · intro hnil
    have hempty := congrArg List.length hnil
    rw [List.length_take, List.length_nil] at hempty
    omega
  · rw [List.length_drop]
    omega
  · rwa [List.take_append_drop]
  · rwa [List.take_append_drop]

/-- A point before digits, if there are any. -/
def pointed (fraction : List Char) : List Char :=
  if fraction.isEmpty then [] else '.' :: fraction

theorem trimPlaces_eq (front : List Char) {fraction : List Char}
    (hdigits : ∀ c ∈ fraction, c.isDigit = true) :
    trimPlaces (String.ofList (front ++ '.' :: fraction)) =
      String.ofList (front ++ pointed (fraction.rdropWhile (· = '0'))) := by
  have hpoint : '.' ∈ front ++ '.' :: fraction := by simp
  have hchars : (front ++ '.' :: fraction).reverse =
      fraction.reverse ++ '.' :: front.reverse := by simp
  unfold trimPlaces pointed List.rdropWhile
  rw [String.toList_ofList, if_pos hpoint, hchars, List.dropWhile_append]
  cases hkept : fraction.reverse.dropWhile (· = '0') with
  | nil =>
      change String.ofList front.reverse.reverse = String.ofList (front ++ [])
      rw [List.reverse_reverse, List.append_nil]
  | cons digit kept =>
      have hdigit : digit ≠ '.' := by
        rintro rfl
        have hmem : '.' ∈ fraction := by
          rw [← List.mem_reverse]
          exact (List.dropWhile_sublist _).subset (hkept ▸ List.mem_cons_self)
        exact nomatch hdigits '.' hmem
      dsimp only [List.isEmpty_cons, Bool.false_eq_true, ↓reduceIte, List.cons_append]
      split
      · next hpoint =>
          exact absurd (List.cons.inj hpoint).1 hdigit
      · simp

end Decimal

/-! ## Reading numerals -/

namespace Numeral

theorem scanDigits?_pointed {whole fraction : List Char} (rest : List Char) (hwhole : whole ≠ [])
    (hdigits : ∀ c ∈ whole ++ fraction, c.isDigit = true) :
    scanDigits? (whole ++ Decimal.pointed fraction ++ '%' :: rest) =
      some (whole, fraction, '%' :: rest) := by
  have hall : ∀ c ∈ whole, c.isDigit = true :=
    fun c hc => hdigits c (List.mem_append_left _ hc)
  have hplaces : ∀ c ∈ fraction, c.isDigit = true :=
    fun c hc => hdigits c (List.mem_append_right _ hc)
  have hsome : whole.isEmpty = false := by
    rwa [List.isEmpty_eq_false_iff]
  have hpercent : ('%' :: rest).takeWhile Char.isDigit = [] ∧
      ('%' :: rest).dropWhile Char.isDigit = '%' :: rest := ⟨rfl, rfl⟩
  unfold scanDigits? Decimal.pointed
  rw [List.append_assoc, List.takeWhile_append_of_pos hall, List.dropWhile_append_of_pos hall]
  cases fraction with
  | nil =>
      change (if (whole ++ []).isEmpty then none else some (whole ++ [], [], '%' :: rest)) = _
      rw [List.append_nil, hsome]
      rfl
  | cons digit places =>
      change (if (whole ++ []).isEmpty && _ then none else some (whole ++ [],
        (digit :: places ++ '%' :: rest).takeWhile Char.isDigit,
        (digit :: places ++ '%' :: rest).dropWhile Char.isDigit)) = _
      rw [List.append_nil, hsome, List.takeWhile_append_of_pos hplaces,
        List.dropWhile_append_of_pos hplaces, hpercent.1, hpercent.2, List.append_nil]
      rfl

/-- In front of a digit the sign is read off. -/
theorem scanSign_signed (negative : Bool) {c : Char} (hc : c.isDigit = true) (s : List Char) :
    scanSign ((if negative then ['-'] else []) ++ c :: s) = (negative, c :: s) := by
  cases negative with
  | true => rfl
  | false =>
      change scanSign (c :: s) = _
      unfold scanSign
      split
      · next heq =>
          obtain rfl := (List.cons.inj heq).1
          exact nomatch hc
      · next heq =>
          obtain rfl := (List.cons.inj heq).1
          exact nomatch hc
      · rfl

theorem scan_pointed (negative : Bool) {whole fraction : List Char} (rest : List Char)
    (hwhole : whole ≠ []) (hdigits : ∀ c ∈ whole ++ fraction, c.isDigit = true) :
    scan ((if negative then ['-'] else []) ++
        (whole ++ Decimal.pointed fraction ++ '%' :: rest)) =
      .found ⟨negative, whole, fraction, 0⟩ ('%' :: rest) := by
  have hscan := scanDigits?_pointed rest hwhole hdigits
  obtain ⟨digit, digits, rfl⟩ := List.exists_cons_of_ne_nil hwhole
  unfold scan
  rw [List.cons_append, List.cons_append,
    scanSign_signed negative (hdigits digit List.mem_cons_self)]
  dsimp only
  rw [← List.cons_append, ← List.cons_append, hscan]
  rfl

/-- Zeros at the end of the places do not count. -/
theorem number_append_zeros (negative : Bool) (whole fraction : List Char) (count : ℕ) :
    number ⟨negative, whole, fraction ++ List.replicate count '0', 0⟩ =
      number ⟨negative, whole, fraction, 0⟩ := by
  have hdigits : digitsValue (whole ++ (fraction ++ List.replicate count '0')) =
      10 ^ count * digitsValue (whole ++ fraction) := by
    rw [← List.append_assoc, digitsValue_eq, digitsValue_eq, Nat.ofDigitChars_append,
      Nat.ofDigitChars_replicate_zero]
  have hshift : (10 : ℚ) ^ (0 - (fraction.length : ℤ)) =
      10 ^ count * 10 ^ (0 - ((fraction.length : ℤ) + count)) := by
    rw [← zpow_natCast, ← zpow_add₀ (by norm_num)]
    congr 1
    omega
  unfold number decimal
  dsimp only
  rw [hdigits, List.length_append, List.length_replicate]
  push_cast
  rw [hshift]
  ring

theorem number_rdropWhile (negative : Bool) (whole fraction : List Char) :
    number ⟨negative, whole, fraction.rdropWhile (· = '0'), 0⟩ =
      number ⟨negative, whole, fraction, 0⟩ := by
  have hzeros : fraction.rtakeWhile (· = '0') =
      List.replicate (fraction.rtakeWhile (· = '0')).length '0' :=
    List.eq_replicate_of_mem fun c hc =>
      of_decide_eq_true (List.mem_rtakeWhile_imp (p := (· = '0')) hc)
  have hsplit := List.rdropWhile_append_rtakeWhile (p := (· = '0')) (l := fraction)
  rw [hzeros] at hsplit
  conv_rhs => rw [← hsplit]
  exact (number_append_zeros negative whole _ _).symm

end Numeral

/-! ## Shown numbers -/

namespace Decimal

/-- The number that a double shows with so many decimal places. -/
noncomputable def shown (places : ℕ) (x : Float) : ℚ :=
  halfEven (real x * 10 ^ places) / 10 ^ places

theorem abs_shown_sub_le (places : ℕ) (x : Float) :
    |(shown places x : ℝ) - real x| ≤ 1 / (2 * 10 ^ places) := by
  have hround := abs_halfEven_sub_le (real x * 10 ^ places)
  have hpos : (0 : ℝ) < 10 ^ places := by positivity
  have hshown : (shown places x : ℝ) - real x =
      (halfEven (real x * 10 ^ places) - real x * 10 ^ places) / 10 ^ places := by
    rw [shown]
    push_cast
    rw [sub_div, mul_div_cancel_right₀ _ hpos.ne']
  rw [hshown, abs_div, abs_of_pos hpos, ← div_div]
  exact div_le_div_of_nonneg_right hround hpos.le

/-- Without trailing zeros a numeral still has the sign and the number that are shown. -/
theorem scan_trimPlaces {places : ℕ} (hplaces : 0 < places) {x : Float} (hx : x.isFinite = true) :
    ∃ numeral, Numeral.scan ((trimPlaces (fixed places x)).toList ++ ['%']) =
        .found numeral ['%'] ∧
      numeral.negative = isSigned x ∧ numeral.number = shown places x := by
  obtain ⟨n, htext, hround⟩ := fixed_of_isFinite places hx
  obtain ⟨whole, fraction, hplaced, hwhole, hlength, hdigits, hvalue⟩ := placed_eq n hplaces
  let kept := fraction.rdropWhile (· = '0')
  have hplacesDigits : ∀ c ∈ fraction, c.isDigit = true :=
    fun c hc => hdigits c (List.mem_append_right _ hc)
  have htrim : trimPlaces (fixed places x) = String.ofList
      ((if isSigned x then ['-'] else []) ++ whole ++ pointed kept) := by
    rw [htext, hplaced, ← trimPlaces_eq _ hplacesDigits]
    cases isSigned x <;> rfl
  have hchars : (trimPlaces (fixed places x)).toList ++ ['%'] =
      (if isSigned x then ['-'] else []) ++ (whole ++ pointed kept ++ ['%']) := by
    rw [htrim, String.toList_ofList]
    simp
  have hkept : ∀ c ∈ whole ++ kept, c.isDigit = true := by
    intro c hc
    apply hdigits
    rcases List.mem_append.mp hc with hc | hc
    · exact List.mem_append_left _ hc
    · exact List.mem_append_right _ ((List.rdropWhile_prefix _ _).subset hc)
  refine ⟨⟨isSigned x, whole, kept, 0⟩, ?_, rfl, ?_⟩
  · rw [hchars]
    exact Numeral.scan_pointed (isSigned x) [] hwhole hkept
  · rw [Numeral.number_rdropWhile]
    unfold Numeral.number Numeral.decimal
    dsimp only
    have hunit : (10 : ℚ) ^ (0 - (places : ℤ)) = 1 / 10 ^ places := by
      rw [zero_sub, zpow_neg, zpow_natCast, one_div]
    rw [hvalue, hlength, hunit, shown, ← hround]
    cases isSigned x with
    | true =>
        rw [if_pos rfl, if_pos rfl]
        push_cast
        ring
    | false =>
        rw [if_neg Bool.false_ne_true, if_neg Bool.false_ne_true]
        push_cast
        ring

end Decimal

/-! ## Percentages -/

/-- The number that a percentage writes: the double, rounded to two places. -/
noncomputable def shownPercent (x : Float) : ℚ :=
  halfEven (real x * 100) / 100

theorem shownPercent_eq_shown (x : Float) : shownPercent x = Decimal.shown 2 x := by
  rw [shownPercent, Decimal.shown]
  norm_num

theorem abs_shownPercent_sub_le (x : Float) : |(shownPercent x : ℝ) - real x| ≤ 1 / 200 := by
  have hshown := Decimal.abs_shown_sub_le 2 x
  rw [← shownPercent_eq_shown] at hshown
  norm_num at hshown ⊢
  exact hshown

/-- Close to a whole number of percents nothing else is written. -/
theorem shownPercent_eq {x : Float} {n : ℕ} (hx : |real x - n| < 1 / 200) :
    shownPercent x = n := by
  have hclose : |((100 * n : ℤ) : ℝ) - real x * 100| < 1 / 2 := by
    push_cast
    rw [abs_lt] at hx ⊢
    constructor <;> linarith
  rw [shownPercent, halfEven_eq hclose.le fun htie => absurd htie hclose.ne]
  push_cast
  ring

/-- A percentage is read back as a numeral and the sign behind it. -/
theorem scan_percentText {x : Float} (hx : x.isFinite = true) :
    ∃ numeral, Numeral.scan (percentText x).toList = .found numeral ['%'] ∧
      numeral.negative = isSigned x ∧ numeral.number = shownPercent x := by
  obtain ⟨numeral, hscan, hsign, hnumber⟩ := Decimal.scan_trimPlaces two_pos hx
  refine ⟨numeral, ?_, hsign, ?_⟩
  · rw [percentText, String.toList_append]
    exact hscan
  · rw [hnumber, shownPercent_eq_shown]

/-- The number before a percent sign that ends a text. -/
def percent? (text : String) : Option ℚ :=
  match Numeral.scan text.toList with
  | .found numeral ['%'] => some numeral.number
  | _ => none

theorem percent?_percentText {x : Float} (hx : x.isFinite = true) :
    percent? (percentText x) = some (shownPercent x) := by
  obtain ⟨numeral, hscan, -, hnumber⟩ := scan_percentText hx
  rw [percent?, hscan, ← hnumber]
  rfl

theorem Numeral.skipBlanks_of_scan {s : List Char} {numeral : Numeral} {rest : List Char}
    (hscan : scan s = .found numeral rest) : skipBlanks s = s := by
  cases s with
  | nil => rfl
  | cons c tail =>
      by_cases hblank : isBlank c = true
      · have hchars : c = ' ' ∨ c = '\t' ∨ c = '\n' ∨ c = '\r' := by
          simpa [isBlank, or_assoc] using hblank
        have habsent : scan (c :: tail) = .absent := by
          rcases hchars with rfl | rfl | rfl | rfl <;> rfl
        rw [habsent] at hscan
        cases hscan
      · exact List.dropWhile_cons_of_neg hblank

/-- A numeral and a percent sign are a percentage as a coordinate. -/
theorem Coord.position?_of_scan {text : String} {numeral : Numeral}
    (hscan : Numeral.scan text.toList = .found numeral ['%']) :
    (expression text).position? = some (.percent numeral.value) := by
  have hblanks := Numeral.skipBlanks_of_scan hscan
  unfold position? Position.parse? Position.scan? Literal.scanSpaced Literal.scan
  simp only [hblanks, hscan]
  rfl

theorem position?_percentText {x : Float} (hx : x.isFinite = true) :
    ∃ v, (Coord.expression (percentText x)).position? = some (.percent v) := by
  obtain ⟨numeral, hscan, -⟩ := scan_percentText hx
  exact ⟨numeral.value, Coord.position?_of_scan hscan⟩

end ChartCompiler
