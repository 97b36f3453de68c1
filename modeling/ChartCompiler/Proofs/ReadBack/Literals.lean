import ChartCompiler.Proofs.NumberTexts
import ChartCompiler.Proofs.ReadBack.Scaling

/-!
# JSON numbers as numerals

A text that JSON reads as a number is a numeral, up to blanks around it. Digits alone are an integer
in both readings, as far as it fits. A double has the sign of its text, and is the nearest one if
the text has few digits; with more digits or a larger power of ten it need not be.
-/

namespace ChartCompiler

open Double

/-! ## Numbers of the reader as numerals -/

namespace Json

def NumberParts.numeral (parts : NumberParts) : Numeral :=
  ⟨parts.negative, parts.whole, parts.fraction, parts.exponent.getD 0⟩

theorem scanDigits?_of_numberFraction {atEnd : Fault} {s fraction mid : List Char}
    (hwhole : s.takeWhile Char.isDigit ≠ [])
    (hread : numberFraction atEnd (s.dropWhile Char.isDigit) = .ok (fraction, mid)) :
    Numeral.scanDigits? s = some (s.takeWhile Char.isDigit, fraction, mid) := by
  have hsome : (s.takeWhile Char.isDigit).isEmpty = false := List.isEmpty_eq_false_iff.mpr hwhole
  unfold Numeral.scanDigits?
  split
  · next after hafter =>
      rw [hafter, numberFraction] at hread
      dsimp only at hread ⊢
      split_ifs at hread
      cases hread
      rw [hsome]
      rfl
  · next hpoint =>
      rw [numberFraction] at hread
      · cases hread
        dsimp only
        rw [hsome]
        rfl
      · exact hpoint

theorem scanExponent?_of_numberExponent {atEnd : Fault} {s after : List Char}
    {exponent : Option ℤ} (hread : numberExponent atEnd s = .ok (exponent, after)) :
    Numeral.scanExponent? s = some (exponent.getD 0, after) := by
  cases s with
  | nil =>
      cases hread
      rfl
  | cons c s =>
      rw [numberExponent] at hread
      rw [Numeral.scanExponent?]
      by_cases hletter : c = 'e' ∨ c = 'E'
      · rw [if_pos hletter] at hread ⊢
        dsimp only at hread ⊢
        by_cases hnone : ((Numeral.scanSign s).2.takeWhile Char.isDigit).isEmpty = true
        · rw [if_pos hnone] at hread
          cases hread
        · rw [if_neg hnone] at hread ⊢
          cases hread
          rfl
      · rw [if_neg hletter] at hread ⊢
        cases hread
        rfl

/-- The sign of a number and what stands behind it. -/
theorem scanSign_of_numberParts {atEnd : Fault} {negative : Bool} {s after : List Char}
    {parts : NumberParts} (hread : numberParts atEnd negative s = .ok (parts, after)) :
    Numeral.scanSign ((if negative then ['-'] else []) ++ s) = (negative, s) := by
  obtain ⟨-, -, -, hwhole, -⟩ := numberParts_eq_ok.mp hread
  cases s with
  | nil => exact absurd rfl hwhole
  | cons c s =>
      refine Numeral.scanSign_signed negative ?_ s
      by_contra hdigit
      exact hwhole (List.takeWhile_cons_of_neg hdigit)

/-- A number is read as the numeral with its parts. -/
theorem scan_of_numberParts {atEnd : Fault} {negative : Bool} {s after : List Char}
    {parts : NumberParts} (hread : numberParts atEnd negative s = .ok (parts, after)) :
    Numeral.scan ((if negative then ['-'] else []) ++ s) = .found parts.numeral after := by
  have hsign := scanSign_of_numberParts hread
  obtain ⟨fraction, mid, exponent, hwhole, -, hfraction, hexponent, rfl⟩ :=
    numberParts_eq_ok.mp hread
  unfold Numeral.scan
  rw [hsign]
  dsimp only
  rw [scanDigits?_of_numberFraction hwhole hfraction]
  dsimp only
  rw [scanExponent?_of_numberExponent hexponent]
  rfl

theorem eq_of_numberFraction_nil {atEnd : Fault} {s mid : List Char}
    (hread : numberFraction atEnd s = .ok ([], mid)) : mid = s := by
  unfold numberFraction at hread
  split at hread
  · dsimp only at hread
    split_ifs at hread with hempty
    rw [(Prod.mk.inj (Except.ok.inj hread)).1] at hempty
    exact absurd rfl hempty
  · cases hread
    rfl

theorem eq_of_numberExponent_none {atEnd : Fault} {s after : List Char}
    (hread : numberExponent atEnd s = .ok (none, after)) : after = s := by
  cases s with
  | nil =>
      cases hread
      rfl
  | cons c s =>
      rw [numberExponent] at hread
      by_cases hletter : c = 'e' ∨ c = 'E'
      · rw [if_pos hletter] at hread
        dsimp only at hread
        by_cases hnone : ((Numeral.scanSign s).2.takeWhile Char.isDigit).isEmpty = true
        · rw [if_pos hnone] at hread
          cases hread
        · rw [if_neg hnone] at hread
          cases hread
      · rw [if_neg hletter] at hread
        cases hread
        rfl

/-- Numbers that end a text are written without point and exponent exactly if they are digits. -/
theorem integral_iff {atEnd : Fault} {negative : Bool} {s : List Char} {parts : NumberParts}
    (hread : numberParts atEnd negative s = .ok (parts, [])) :
    (parts.fraction = [] ∧ parts.exponent = none) ↔ s.dropWhile Char.isDigit = [] := by
  obtain ⟨fraction, mid, exponent, -, -, hfraction, hexponent, rfl⟩ := numberParts_eq_ok.mp hread
  constructor
  · rintro ⟨rfl, rfl⟩
    obtain rfl := eq_of_numberFraction_nil hfraction
    exact (eq_of_numberExponent_none hexponent).symm
  · intro hnil
    rw [hnil] at hfraction
    cases hfraction
    cases hexponent
    exact ⟨rfl, rfl⟩

/-- Only a sign or a digit begins a number. -/
theorem unsignedNumber_of_valueWith
    {nested : Option (List Char → Except Fault (Json × List Char))} {text after : List Char}
    {n : Number} (hread : valueWith nested text = .ok (.number n, after)) :
    ∃ (negative : Bool) (s : List Char),
      skipBlanks text = (if negative then ['-'] else []) ++ s ∧
      unsignedNumber negative s = .ok (n, after) := by
  unfold valueWith at hread
  split at hread
  · exact nomatch hread
  · obtain ⟨_, _, hread⟩ := bind_eq_ok.mp hread
    cases hread
  · obtain ⟨_, _, hread⟩ := bind_eq_ok.mp hread
    cases hread
  · obtain ⟨_, _, hread⟩ := bind_eq_ok.mp hread
    cases hread
  · obtain ⟨_, _, hread⟩ := bind_eq_ok.mp hread
    cases hread
  · next s hs =>
      obtain ⟨⟨m, last⟩, hnumber, hread⟩ := bind_eq_ok.mp hread
      cases hread
      exact ⟨true, s, hs, hnumber⟩
  · split at hread
    · exact nomatch hread
    · obtain ⟨_, _, hread⟩ := bind_eq_ok.mp hread
      cases hread
  · split at hread
    · exact nomatch hread
    · obtain ⟨_, _, hread⟩ := bind_eq_ok.mp hread
      cases hread
  · next c s _ _ _ _ _ _ _ hs =>
      split_ifs at hread
      obtain ⟨⟨m, last⟩, hnumber, hread⟩ := bind_eq_ok.mp hread
      cases hread
      exact ⟨false, c :: s, hs, hnumber⟩

/-- A text that is read as a number holds its sign and its parts, with blanks around them. -/
theorem exists_parts_of_readText {text : List Char} {n : Number}
    (hread : value.readText text = .ok (.number n)) :
    ∃ (negative : Bool) (s : List Char) (parts : NumberParts) (after : List Char),
      skipBlanks text = (if negative then ['-'] else []) ++ s ∧
      numberParts .cutShort negative s = .ok (parts, after) ∧ parts.number? = some n ∧
      skipBlanks after = [] := by
  obtain ⟨⟨v, after⟩, hvalue, hread⟩ := bind_eq_ok.mp hread
  dsimp only at hread
  split_ifs at hread with hend
  cases hread
  obtain ⟨nested, hnested⟩ := exists_valueWith maxDepth
  rw [hnested] at hvalue
  obtain ⟨negative, s, hs, hnumber⟩ := unsignedNumber_of_valueWith hvalue
  obtain ⟨parts, hparts, hn⟩ := unsignedNumber_eq_ok.mp hnumber
  exact ⟨negative, s, parts, after, hs, hparts, hn, List.isEmpty_iff.mp hend⟩

/-- Digits that do not fit 64 bits are not all taken. -/
theorem takeFitting_spec (n : ℕ) (digits : List Char) :
    (takeFitting n digits).2 ≤ digits.length ∧
      ((takeFitting n digits).2 = digits.length →
        (takeFitting n digits).1 = Nat.ofDigitChars 10 digits n) := by
  induction digits generalizing n with
  | nil => exact ⟨le_rfl, fun _ => rfl⟩
  | cons c rest ih =>
      obtain ⟨hcount, hvalue⟩ := ih (10 * n + (c.toNat - '0'.toNat))
      rw [takeFitting, Nat.ofDigitChars_cons]
      dsimp only
      split_ifs with hlonger
      · exact ⟨Nat.succ_le_succ hcount, fun hall => hvalue (Nat.succ.inj hall)⟩
      · exact ⟨Nat.zero_le _, False.elim⟩

/-- Integers are made of digits alone, if these fit 64 bits. -/
theorem NumberParts.of_number?_integer {parts : NumberParts} {v : ℤ}
    (hn : parts.number? = some (.integer v)) :
    parts.fraction = [] ∧ parts.exponent = none ∧ digitsValue parts.whole < 2 ^ 64 := by
  have hfits := takeFitting_lt (n := 0) (by norm_num) parts.whole
  obtain ⟨hcount, hvalue⟩ := takeFitting_spec 0 parts.whole
  unfold number? at hn
  generalize takeFitting 0 parts.whole = taken at hn hfits hcount hvalue
  obtain ⟨head, taken⟩ := taken
  dsimp only at hn hfits hcount hvalue
  by_cases hintegral : parts.fraction.isEmpty ∧ parts.exponent.isNone ∧
      parts.whole.length - taken = 0
  · obtain ⟨hfraction, hexponent, hdropped⟩ := hintegral
    rw [digitsValue_eq, ← hvalue (by omega)]
    exact ⟨List.isEmpty_iff.mp hfraction, Option.isNone_iff_eq_none.mp hexponent, hfits⟩
  · rw [if_neg hintegral] at hn
    obtain ⟨x, -, hx⟩ := Option.map_eq_some_iff.mp hn
    exact nomatch hx

theorem isUnsigned_ofNat (n : ℕ) : IsUnsigned (Float.ofNat n) :=
  isUnsigned_ofScientific n false 0

theorem isUnsigned_powerOfTen (n : ℕ) : IsUnsigned (powerOfTen n) :=
  isUnsigned_ofScientific 1 false n

theorem isUnsigned_scaled? {significand : ℕ} {exponent : ℤ} {x : Float}
    (hx : scaled? significand exponent = some x) : IsUnsigned x := by
  have hsignificand := isUnsigned_ofNat significand
  unfold scaled? at hx
  dsimp only at hx
  split_ifs at hx
  · cases hx
    exact hsignificand
  · cases hx
    exact hsignificand.mul (isUnsigned_powerOfTen _)
  · cases hx
    exact hsignificand.div (isUnsigned_powerOfTen _)
  · cases hx
    exact (hsignificand.div (isUnsigned_powerOfTen _)).div (isUnsigned_powerOfTen _)
  · cases hx
    decide

/-- The sign of a double is that of its text. -/
theorem NumberParts.of_number?_real {parts : NumberParts} {x : Float}
    (hn : parts.number? = some (.real x)) :
    ∃ z, IsUnsigned z ∧ x = if parts.negative then -z else z := by
  unfold number? at hn
  dsimp only at hn
  split_ifs at hn with hintegral hpositive hword hnegative
  · exact nomatch hn
  · exact nomatch hn
  · cases hn
    refine ⟨Float.ofNat (takeFitting 0 parts.whole).1, isUnsigned_ofNat _, ?_⟩
    rw [if_pos (by simpa using hpositive)]
  · obtain ⟨z, hz, hx⟩ := Option.map_eq_some_iff.mp hn
    cases hx
    exact ⟨_, isUnsigned_scaled? hz, (if_pos hnegative).symm⟩
  · obtain ⟨z, hz, hx⟩ := Option.map_eq_some_iff.mp hn
    cases hx
    exact ⟨_, isUnsigned_scaled? hz, (if_neg hnegative).symm⟩

end Json

/-- A text is an integer of 64 bits if it is digits behind a sign. -/
theorem parseInt64?_eq_some_iff {text s : List Char} {negative : Bool} {v : ℤ}
    (hsign : Numeral.scanSign text = (negative, s)) (hs : s ≠ []) :
    parseInt64? text = some v ↔ s.dropWhile Char.isDigit = [] ∧
      v = (if negative then -(digitsValue s : ℤ) else digitsValue s) ∧
      -(2 : ℤ) ^ 63 ≤ v ∧ v < 2 ^ 63 := by
  have hdigits : s.dropWhile Char.isDigit = [] ↔ s.all Char.isDigit = true := by
    rw [List.dropWhile_eq_nil_iff, List.all_eq_true]
  have hsome : s.isEmpty = false := List.isEmpty_eq_false_iff.mpr hs
  unfold parseInt64?
  rw [hsign, hdigits]
  dsimp only
  rw [hsome]
  cases hall : s.all Char.isDigit with
  | false => simp
  | true =>
      rw [if_neg (by simp)]
      generalize (if negative then -(digitsValue s : ℤ) else digitsValue s) = w
      constructor
      · intro heq
        split_ifs at heq with hrange
        obtain rfl := Option.some.inj heq
        exact ⟨rfl, rfl, hrange⟩
      · rintro ⟨-, rfl, hrange⟩
        exact if_pos hrange

namespace Json

theorem head_of_digitsValue_eq_zero {c : Char} {s : List Char} (hc : c.isDigit = true)
    (hzero : digitsValue (c :: s) = 0) : c = '0' := by
  rw [digitsValue_eq, Nat.ofDigitChars_cons, Nat.ofDigitChars_eq_ofDigitChars_zero] at hzero
  obtain ⟨hfirst, -⟩ := Nat.add_eq_zero_iff.mp hzero
  have hcases := digit_cases hc
  simp only [List.mem_cons, List.not_mem_nil, or_false] at hcases
  rcases hcases with rfl | rfl | rfl | rfl | rfl | rfl | rfl | rfl | rfl | rfl
  · rfl
  all_goals simp at hfirst

section Literal

variable {s : List Char} {negative : Bool} {parts : NumberParts}
  (hparts : numberParts .cutShort negative s = .ok (parts, []))
include hparts

theorem ne_nil_of_numberParts : s ≠ [] := by
  rintro rfl
  exact nomatch hparts

/-- Of digits alone the parts are plain. -/
theorem eq_of_digits (hdigits : s.dropWhile Char.isDigit = []) :
    parts = ⟨negative, s, [], none⟩ := by
  obtain ⟨hfraction, hexponent⟩ := (integral_iff hparts).mpr hdigits
  obtain ⟨fraction, mid, exponent, -, -, -, -, rfl⟩ := numberParts_eq_ok.mp hparts
  dsimp only at hfraction hexponent
  have hsplit := List.takeWhile_append_dropWhile (p := Char.isDigit) (l := s)
  rw [hdigits, List.append_nil] at hsplit
  rw [hsplit, hfraction, hexponent]

/-- There is one way to write zero with digits alone. -/
theorem eq_zero_of_digits (hdigits : s.dropWhile Char.isDigit = [])
    (hzero : digitsValue s = 0) : s = ['0'] := by
  have hsplit := List.takeWhile_append_dropWhile (p := Char.isDigit) (l := s)
  rw [hdigits, List.append_nil] at hsplit
  obtain ⟨-, -, -, hwhole, hlead, -⟩ := numberParts_eq_ok.mp hparts
  rw [hsplit] at hwhole hlead
  obtain ⟨c, rest, rfl⟩ := List.exists_cons_of_ne_nil hwhole
  obtain rfl := head_of_digitsValue_eq_zero
    (List.dropWhile_eq_nil_iff.mp hdigits c List.mem_cons_self) hzero
  have hlength : (('0' : Char) :: rest).length = 1 := by
    by_contra hmore
    exact hlead ⟨rfl, hmore⟩
  rw [List.length_eq_zero_iff.mp (Nat.succ.inj hlength)]

/-- What JSON has as an integer are digits, and comma-separated values have the same integer as long
as it fits 64 bits with a sign. -/
theorem digits_of_integer {v : ℤ} (hn : parts.number? = some (.integer v)) :
    s.dropWhile Char.isDigit = [] ∧ digitsValue s < 2 ^ 64 ∧
      v = (if negative then -(digitsValue s : ℤ) else digitsValue s) ∧ -(2 : ℤ) ^ 63 ≤ v := by
  obtain ⟨hfraction, hexponent, hfits⟩ := NumberParts.of_number?_integer hn
  have hdigits := (integral_iff hparts).mp ⟨hfraction, hexponent⟩
  rw [eq_of_digits hparts hdigits] at hn hfits
  dsimp only at hfits
  rw [number?_of_lt hfits] at hn
  refine ⟨hdigits, hfits, ?_⟩
  cases negative with
  | false =>
      cases hn
      exact ⟨rfl, by omega⟩
  | true =>
      rw [if_neg (by decide)] at hn
      split_ifs at hn with hword
      · cases hn
        have hbound : digitsValue s ≤ 2 ^ 63 := hword.2
        exact ⟨rfl, by omega⟩
      · cases hn

variable {text : List Char} (htext : text = (if negative then ['-'] else []) ++ s)
include htext

theorem scanSign_text : Numeral.scanSign text = (negative, s) :=
  htext ▸ scanSign_of_numberParts hparts

theorem scan_text : Numeral.scan text = .found parts.numeral [] :=
  htext ▸ scan_of_numberParts hparts

/-- Where comma-separated values have an integer, JSON has it as well, except for `-0`. -/
theorem number?_of_parseInt64? {v : ℤ} (hv : parseInt64? text = some v) :
    parts.number? = some (.integer v) ∨ text = ['-', '0'] := by
  obtain ⟨hdigits, hvalue, hlow, hhigh⟩ := (parseInt64?_eq_some_iff (scanSign_text hparts htext)
    (ne_nil_of_numberParts hparts)).mp hv
  have hfits : digitsValue s < 2 ^ 64 := by
    split_ifs at hvalue <;> omega
  rw [eq_of_digits hparts hdigits, number?_of_lt hfits]
  cases negative with
  | false =>
      left
      rw [hvalue]
      rfl
  | true =>
      rw [if_pos rfl] at hvalue
      rcases Nat.eq_zero_or_pos (digitsValue s) with hzero | hpos
      · right
        rw [htext, eq_zero_of_digits hparts hdigits hzero]
        rfl
      · left
        have hword : digitsValue s ≤ Nat.pow 2 63 := by
          change _ ≤ 2 ^ 63
          omega
        rw [if_neg (by decide), if_pos ⟨hpos, hword⟩, hvalue]

end Literal

end Json

/-! ## Numbers of few digits -/

namespace Json

theorem exact_powerOfTen {n : ℕ} (hn : n ≤ 22) :
    (powerOfTen n).isFinite = true ∧ real (powerOfTen n) = 10 ^ n := by
  have hfives : (5 : ℤ) ^ n ≤ 2 ^ 53 :=
    (pow_le_pow_right₀ (by norm_num) hn).trans (by norm_num)
  have hsplit : (10 : ℝ) ^ n = ((5 ^ n : ℤ) : ℝ) * 2 ^ (n : ℤ) := by
    rw [show (10 : ℝ) = 5 * 2 by norm_num, mul_pow, zpow_natCast]
    push_cast
    rfl
  refine (rounds_powerOfTen (n := n) (by omega)).exact ?_ ?_
  · rw [hsplit]
    exact isDouble_mul_zpow (by rwa [abs_of_nonneg (by positivity)]) (by omega)
  · have hword : 10 ^ n < 2 ^ 1023 :=
      (Nat.pow_le_pow_right (by norm_num) hn).trans_lt (by decide +kernel)
    exact_mod_cast natCast_lt_limit hword

/-- One rounding is left if the digits and the power of ten are exact. -/
theorem rounds_scaled? {significand : ℕ} {exponent : ℤ} {z : Float}
    (hz : scaled? significand exponent = some z) (hdigits : significand ≤ 2 ^ 53)
    (hlow : -22 ≤ exponent) (hhigh : exponent ≤ 22) :
    Rounds z (significand * 10 ^ exponent) := by
  obtain ⟨hfinite, hreal⟩ := exact_ofNat hdigits
  unfold scaled? at hz
  dsimp only at hz
  split_ifs at hz with hlarge hzero hpositive hinf hnegative
  · omega
  · cases hz
    obtain ⟨hpfinite, hpreal⟩ := exact_powerOfTen (n := exponent.toNat) (by omega)
    have hrounds := rounds_mul hfinite hpfinite
    rwa [hreal, hpreal, ← zpow_natCast, Int.toNat_of_nonneg hpositive] at hrounds
  · cases hz
    obtain ⟨hpfinite, hpreal⟩ := exact_powerOfTen (n := (-exponent).toNat) (by omega)
    have hrounds := rounds_div hfinite hpfinite (by rw [hpreal]; positivity)
    rwa [hreal, hpreal, div_eq_mul_inv, ← zpow_natCast, ← zpow_neg,
      Int.toNat_of_nonneg (by omega), neg_neg] at hrounds
  · omega
  · omega

/-- Digits that fit 64 bits are all taken, on both sides of the point. -/
theorem takeFitting_append {whole fraction : List Char}
    (hfits : digitsValue (whole ++ fraction) < 2 ^ 64) :
    takeFitting 0 whole = (digitsValue whole, whole.length) ∧
      takeFitting (digitsValue whole) fraction =
        (digitsValue (whole ++ fraction), fraction.length) := by
  rw [digitsValue_eq, Nat.ofDigitChars_append] at hfits
  rw [digitsValue_eq, digitsValue_eq, Nat.ofDigitChars_append]
  refine ⟨takeFitting_eq (lt_of_le_of_lt ?_ hfits), takeFitting_eq hfits⟩
  have hmore := @Nat.ofDigitChars_eq_ofDigitChars_zero fraction (Nat.ofDigitChars 10 whole 0)
  have hpow : 1 ≤ 10 ^ fraction.length := Nat.one_le_pow _ _ (by norm_num)
  nlinarith

/-- A double is the one nearest to its text if this has few digits. -/
theorem NumberParts.rounds_of_number? {parts : NumberParts} {x : Float}
    (hn : parts.number? = some (.real x)) (hdigits : parts.numeral.decimal.digits ≤ 2 ^ 53)
    (hlow : -22 ≤ parts.numeral.decimal.exponent) (hhigh : parts.numeral.decimal.exponent ≤ 22) :
    Rounds x (parts.numeral.number : ℚ) := by
  obtain ⟨negative, whole, fraction, exponent⟩ := parts
  have hfits : digitsValue (whole ++ fraction) < 2 ^ 64 := hdigits.trans_lt (by norm_num)
  obtain ⟨hwhole, hfraction⟩ := takeFitting_append hfits
  have hsigned : ∀ z, Rounds z (digitsValue (whole ++ fraction) *
      10 ^ (exponent.getD 0 - fraction.length)) → Rounds (if negative then -z else z)
        (numeral ⟨negative, whole, fraction, exponent⟩).number := fun z hz =>
    Numeral.rounds_signed (n := ⟨negative, whole, fraction, exponent.getD 0⟩) hz
  have hexponent : ((whole.length - whole.length : ℕ) : ℤ) - fraction.length +
      exponent.getD 0 = exponent.getD 0 - fraction.length := by
    omega
  unfold number? at hn
  rw [hwhole] at hn
  dsimp only at hn
  rw [hfraction, hexponent] at hn
  split_ifs at hn with hintegral hpositive hword hnegative
  · exact nomatch hn
  · exact nomatch hn
  · cases hn
    obtain ⟨hplain, hnone, -⟩ := hintegral
    obtain rfl := List.isEmpty_iff.mp hplain
    obtain rfl := Option.isNone_iff_eq_none.mp hnone
    have hrounds := hsigned (Float.ofNat (digitsValue whole)) ?_
    · rwa [if_pos (by simpa using hpositive)] at hrounds
    · have hofNat := rounds_ofNat (digitsValue whole)
      simpa using hofNat
  · obtain ⟨z, hz, hx⟩ := Option.map_eq_some_iff.mp hn
    cases hx
    have hrounds := hsigned z (rounds_scaled? hz hdigits hlow hhigh)
    rwa [if_pos hnegative] at hrounds
  · obtain ⟨z, hz, hx⟩ := Option.map_eq_some_iff.mp hn
    cases hx
    have hrounds := hsigned _ (rounds_scaled? hz hdigits hlow hhigh)
    rwa [if_neg hnegative] at hrounds

end Json

end ChartCompiler
