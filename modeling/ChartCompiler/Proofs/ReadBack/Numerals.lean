import ChartCompiler.Json.Typed
import ChartCompiler.Json.Writer
import ChartCompiler.Proofs.WrittenNumbers

/-!
# Numbers read back

A text is read back in front of anything that can close a value. For numbers this needs care on both
sides: the reader must not take what follows for more digits, and the writer must not leave a zero
in front of a digit. Integers of 64 bits read back always. Doubles need not: the reader rounds
more than once, so that a double reads back is a property of this double, `Number.ReadsBack`.
-/

namespace ChartCompiler

namespace Json

/-! ## Where texts begin and end -/

/-- What can stand behind a value: nothing, a comma or a closing bracket. -/
def Closes (rest : List Char) : Prop :=
  ∀ c ∈ rest.head?, c = ',' ∨ c = ']' ∨ c = '\x7d'

theorem closes_nil : Closes [] := nofun

theorem closes_comma (rest : List Char) : Closes (',' :: rest) := by
  rintro _ ⟨⟩
  exact .inl rfl

theorem closes_bracket (rest : List Char) : Closes (']' :: rest) := by
  rintro _ ⟨⟩
  exact .inr (.inl rfl)

theorem closes_brace (rest : List Char) : Closes ('\x7d' :: rest) := by
  rintro _ ⟨⟩
  exact .inr (.inr rfl)

/-- A value begins with this character. -/
def opens (c : Char) : Bool :=
  c.isDigit || c ∈ ['"', '-', '[', '\x7b', 'n', 't', 'f']

theorem isBlank_of_opens {c : Char} (hc : opens c = true) : isBlank c = false := by
  unfold opens at hc
  cases hblank : isBlank c with
  | false => rfl
  | true =>
      simp only [isBlank, Bool.or_eq_true, decide_eq_true_eq] at hblank
      rcases hblank with ((rfl | rfl) | rfl) | rfl <;> exact absurd hc (by decide)

theorem skipBlanks_cons {c : Char} (hc : isBlank c = false) (s : List Char) :
    skipBlanks (c :: s) = c :: s :=
  List.dropWhile_cons_of_neg (by simp [hc])

theorem opens_of_isDigit {c : Char} (hc : c.isDigit = true) : opens c = true := by
  rw [opens, hc, Bool.true_or]

theorem text_natCast (n : ℕ) : (Number.integer n).text.toList = (Nat.repr n).toList := rfl

theorem text_neg (n : ℕ) :
    (Number.integer (-(n + 1 : ℕ))).text.toList = '-' :: (Nat.repr (n + 1)).toList := by
  rw [Number.text]
  change (Int.repr (Int.negSucc n)).toList = _
  rw [Int.repr, String.toList_append]
  rfl

/-- A number is written with a digit at the start, behind its sign if it has one; a double that is
not finite is written as `null`. -/
theorem text_cases (n : Number) :
    n.text = "null" ∨ ∃ c s, c.isDigit = true ∧
      (n.text.toList = c :: s ∨ n.text.toList = '-' :: c :: s) := by
  cases n with
  | integer n =>
      obtain ⟨m, rfl | rfl⟩ := n.eq_nat_or_neg
      · obtain ⟨c, s, hdigits, hdigit⟩ := Decimal.exists_digit_repr m
        exact .inr ⟨c, s, hdigit, .inl ((text_natCast m).trans hdigits)⟩
      · cases m with
        | zero => exact .inr ⟨'0', [], rfl, .inl rfl⟩
        | succ m =>
            obtain ⟨c, s, hdigits, hdigit⟩ := Decimal.exists_digit_repr (m + 1)
            exact .inr ⟨c, s, hdigit, .inr ((text_neg m).trans (congrArg _ hdigits))⟩
  | real x =>
      rw [Number.text, Decimal.Layout.write]
      cases Dyadic.ofFloat? x with
      | none =>
          dsimp only
          split_ifs <;> exact .inl rfl
      | some d =>
          obtain ⟨c, s, hmagnitude, hdigit⟩ := Decimal.exists_digit_magnitude numberLayout
            (.shortest numberLayout.tie d.significand d.exponent)
          refine .inr ⟨c, s, hdigit, ?_⟩
          dsimp only
          rw [hmagnitude, String.toList_ofList]
          cases d.negative with
          | false => exact .inl rfl
          | true => exact .inr rfl

theorem exists_opens_text (n : Number) : ∃ c s, n.text.toList = c :: s ∧ opens c = true := by
  rcases text_cases n with hnull | ⟨c, s, hdigit, hplain | hsigned⟩
  · exact ⟨'n', _, by rw [hnull]; rfl, rfl⟩
  · exact ⟨c, s, hplain, opens_of_isDigit hdigit⟩
  · exact ⟨'-', _, hsigned, rfl⟩

theorem exists_opens_compact (v : Json) :
    ∃ c s, v.compact = c :: s ∧ opens c = true := by
  cases v with
  | null => exact ⟨_, _, rfl, rfl⟩
  | bool b => cases b <;> exact ⟨_, _, rfl, rfl⟩
  | number n => exact exists_opens_text n
  | string s => exact ⟨_, _, rfl, rfl⟩
  | array items => exact ⟨_, _, by rw [compact], rfl⟩
  | object members => exact ⟨_, _, by rw [compact], rfl⟩

/-! ## Numbers -/

theorem bind_eq_ok {ε α β : Type} {x : Except ε α} {f : α → Except ε β} {b : β} :
    x >>= f = .ok b ↔ ∃ a, x = .ok a ∧ f a = .ok b := by
  cases x with
  | error fault => exact ⟨nofun, nofun⟩
  | ok a => exact ⟨fun h => ⟨a, rfl, h⟩, fun ⟨_, ha, h⟩ => Except.ok.inj ha ▸ h⟩

/-- The parts of a number are its digits, without a needless zero, its fraction and its exponent. -/
theorem numberParts_eq_ok {atEnd : Fault} {negative : Bool} {s after : List Char}
    {parts : NumberParts} :
    numberParts atEnd negative s = .ok (parts, after) ↔
      ∃ fraction mid exponent, s.takeWhile Char.isDigit ≠ [] ∧
        ¬((s.takeWhile Char.isDigit).head? = some '0' ∧ (s.takeWhile Char.isDigit).length ≠ 1) ∧
        numberFraction atEnd (s.dropWhile Char.isDigit) = .ok (fraction, mid) ∧
        numberExponent atEnd mid = .ok (exponent, after) ∧
        parts = ⟨negative, s.takeWhile Char.isDigit, fraction, exponent⟩ := by
  unfold numberParts
  dsimp only
  by_cases hempty : s.isEmpty = true
  · rw [if_pos hempty, List.isEmpty_iff.mp hempty]
    exact ⟨nofun, fun ⟨_, _, _, hdigits, _⟩ => absurd rfl hdigits⟩
  by_cases hnone : (s.takeWhile Char.isDigit).isEmpty = true
  · rw [if_neg hempty, if_pos hnone, List.isEmpty_iff.mp hnone]
    exact ⟨nofun, fun ⟨_, _, _, hdigits, _⟩ => absurd rfl hdigits⟩
  by_cases hzero : (s.takeWhile Char.isDigit).head? = some '0' ∧
      (s.takeWhile Char.isDigit).length ≠ 1
  · rw [if_neg hempty, if_neg hnone, if_pos hzero]
    exact ⟨nofun, fun ⟨_, _, _, _, hdigits, _⟩ => absurd hzero hdigits⟩
  rw [if_neg hempty, if_neg hnone, if_neg hzero]
  constructor
  · intro hread
    obtain ⟨⟨fraction, mid⟩, hfraction, hread⟩ := bind_eq_ok.mp hread
    obtain ⟨⟨exponent, last⟩, hexponent, hread⟩ := bind_eq_ok.mp hread
    obtain ⟨rfl, rfl⟩ := Prod.mk.inj (Except.ok.inj hread)
    exact ⟨fraction, mid, exponent, fun hnil => hnone (List.isEmpty_iff.mpr hnil), hzero,
      hfraction, hexponent, rfl⟩
  · rintro ⟨fraction, mid, exponent, -, -, hfraction, hexponent, rfl⟩
    exact bind_eq_ok.mpr ⟨_, hfraction, bind_eq_ok.mpr ⟨_, hexponent, rfl⟩⟩

/-- A number is what its parts make, and nothing is read where they are too large. -/
theorem unsignedNumber_eq_ok {negative : Bool} {s after : List Char} {n : Number} :
    unsignedNumber negative s = .ok (n, after) ↔ ∃ parts : NumberParts,
      numberParts .cutShort negative s = .ok (parts, after) ∧ parts.number? = some n := by
  unfold unsignedNumber
  constructor
  · intro hread
    obtain ⟨⟨parts, last⟩, hparts, hread⟩ := bind_eq_ok.mp hread
    dsimp only at hread
    cases hnumber : parts.number? with
    | none =>
        rw [hnumber] at hread
        cases hread
    | some m =>
        rw [hnumber] at hread
        cases hread
        exact ⟨parts, hparts, hnumber⟩
  · rintro ⟨parts, hparts, hnumber⟩
    refine bind_eq_ok.mpr ⟨_, hparts, ?_⟩
    dsimp only
    rw [hnumber]
    rfl

section Frame

variable {rest : List Char} (hrest : Closes rest)
include hrest

/-- No numeral goes on behind a value. -/
theorem Closes.head_cases : rest = [] ∨ ∃ c after, rest = c :: after ∧ c.isDigit = false ∧
    c ≠ '.' ∧ c ≠ 'e' ∧ c ≠ 'E' := by
  cases rest with
  | nil => exact .inl rfl
  | cons c after =>
      refine .inr ⟨c, after, rfl, ?_⟩
      rcases hrest c rfl with rfl | rfl | rfl <;> exact ⟨rfl, by decide, by decide, by decide⟩

theorem Closes.takeWhile_append (s : List Char) :
    (s ++ rest).takeWhile Char.isDigit = s.takeWhile Char.isDigit := by
  induction s with
  | nil =>
      rcases hrest.head_cases with rfl | ⟨c, after, rfl, hc, -⟩
      · rfl
      · exact List.takeWhile_cons_of_neg (by simp [hc])
  | cons c s ih => rw [List.cons_append, List.takeWhile_cons, List.takeWhile_cons, ih]

theorem Closes.dropWhile_append (s : List Char) :
    (s ++ rest).dropWhile Char.isDigit = s.dropWhile Char.isDigit ++ rest := by
  induction s with
  | nil =>
      rcases hrest.head_cases with rfl | ⟨c, after, rfl, hc, -⟩
      · rfl
      · exact List.dropWhile_cons_of_neg (by simp [hc])
  | cons c s ih =>
      rw [List.cons_append, List.dropWhile_cons, List.dropWhile_cons, ih]
      split <;> rfl

theorem numberFraction_append {atEnd : Fault} {s digits after : List Char}
    (hread : numberFraction atEnd s = .ok (digits, after)) :
    numberFraction atEnd (s ++ rest) = .ok (digits, after ++ rest) := by
  match s with
  | [] =>
      obtain ⟨rfl, rfl⟩ := Prod.mk.inj (Except.ok.inj hread)
      rcases hrest.head_cases with rfl | ⟨c, after, rfl, -, hpoint, -⟩
      · rfl
      · rw [List.nil_append, numberFraction]
        exact fun _ heq => hpoint (List.cons.inj heq).1
  | c :: s =>
      by_cases hpoint : c = '.'
      · subst hpoint
        rw [numberFraction] at hread
        rw [List.cons_append, numberFraction, hrest.takeWhile_append, hrest.dropWhile_append]
        split_ifs at hread with hnone
        rw [if_neg hnone]
        obtain ⟨rfl, rfl⟩ := Prod.mk.inj (Except.ok.inj hread)
        rfl
      · rw [numberFraction] at hread
        · obtain ⟨rfl, rfl⟩ := Prod.mk.inj (Except.ok.inj hread)
          rw [List.cons_append, numberFraction]
          exact fun _ heq => hpoint (List.cons.inj heq).1
        · exact fun _ heq => hpoint (List.cons.inj heq).1

theorem scanSign_append (s : List Char) :
    Numeral.scanSign (s ++ rest) =
      ((Numeral.scanSign s).1, (Numeral.scanSign s).2 ++ rest) := by
  match s with
  | [] =>
      cases rest with
      | nil => rfl
      | cons c after => rcases hrest c rfl with rfl | rfl | rfl <;> rfl
  | c :: s =>
      rw [List.cons_append]
      unfold Numeral.scanSign
      split <;> simp_all

theorem numberExponent_append {atEnd : Fault} {s after : List Char} {exponent : Option Int}
    (hread : numberExponent atEnd s = .ok (exponent, after)) :
    numberExponent atEnd (s ++ rest) = .ok (exponent, after ++ rest) := by
  match s with
  | [] =>
      obtain ⟨rfl, rfl⟩ := Prod.mk.inj (Except.ok.inj hread)
      cases rest with
      | nil => rfl
      | cons c after => rcases hrest c rfl with rfl | rfl | rfl <;> rfl
  | c :: s =>
      rw [List.cons_append]
      rw [numberExponent] at hread ⊢
      by_cases hletter : c = 'e' ∨ c = 'E'
      · rw [if_pos hletter] at hread ⊢
        rw [scanSign_append hrest]
        dsimp only at hread ⊢
        rw [hrest.takeWhile_append, hrest.dropWhile_append]
        by_cases hnone : ((Numeral.scanSign s).2.takeWhile Char.isDigit).isEmpty = true
        · rw [if_pos hnone] at hread
          exact nomatch hread
        · rw [if_neg hnone] at hread ⊢
          obtain ⟨rfl, rfl⟩ := Prod.mk.inj (Except.ok.inj hread)
          rfl
      · rw [if_neg hletter] at hread ⊢
        obtain ⟨rfl, rfl⟩ := Prod.mk.inj (Except.ok.inj hread)
        rfl

theorem numberParts_append {atEnd : Fault} {negative : Bool} {s after : List Char}
    {parts : NumberParts} (hread : numberParts atEnd negative s = .ok (parts, after)) :
    numberParts atEnd negative (s ++ rest) = .ok (parts, after ++ rest) := by
  obtain ⟨fraction, mid, exponent, hdigits, hzero, hfraction, hexponent, rfl⟩ :=
    numberParts_eq_ok.mp hread
  refine numberParts_eq_ok.mpr ⟨fraction, mid ++ rest, exponent, ?_⟩
  rw [hrest.takeWhile_append, hrest.dropWhile_append]
  exact ⟨hdigits, hzero, numberFraction_append hrest hfraction,
    numberExponent_append hrest hexponent, rfl⟩

/-- What closes a value is not taken for a part of its number. -/
theorem unsignedNumber_append {negative : Bool} {s after : List Char} {n : Number}
    (hread : unsignedNumber negative s = .ok (n, after)) :
    unsignedNumber negative (s ++ rest) = .ok (n, after ++ rest) := by
  obtain ⟨parts, hparts, hnumber⟩ := unsignedNumber_eq_ok.mp hread
  exact unsignedNumber_eq_ok.mpr ⟨parts, numberParts_append hrest hparts, hnumber⟩

end Frame

/-! ## Reading back -/

/-- The reader gets `x` off the text of a value, and leaves what closes it. -/
def Reader.Reads {α : Type} (reader : Reader α) (depth : Nat) (x : α) (v : Json) : Prop :=
  ∀ rest, Closes rest → reader depth (v.compact ++ rest) = .ok (x, rest)

def Number.ReadsBack (n : Number) : Prop :=
  value 0 n.text.toList = .ok (.number n, [])

deriving instance DecidableEq for Number

instance (n : Number) : Decidable n.ReadsBack :=
  match hread : value 0 n.text.toList with
  | .ok (.number m, []) =>
      decidable_of_iff (m = n) (by rw [Number.ReadsBack, hread]; simp)
  | .ok (.number _, _ :: _) | .ok (.null, _) | .ok (.bool _, _) | .ok (.string _, _)
  | .ok (.array _, _) | .ok (.object _, _) | .error _ =>
      .isFalse (by rw [Number.ReadsBack, hread]; simp)

example : (Number.real 2.5).ReadsBack := by decide +kernel

-- No power of ten above `10 ^ 22` is exact, and dividing by one rounds a second time.
example : ¬(Number.real 4e-49).ReadsBack := by decide +kernel

theorem digit_cases {c : Char} (hc : c.isDigit = true) :
    c ∈ ['0', '1', '2', '3', '4', '5', '6', '7', '8', '9'] := by
  obtain ⟨hlow, hhigh⟩ : 48 ≤ c.toNat ∧ c.toNat ≤ 57 := by
    simpa [Char.isDigit, UInt32.le_iff_toNat_le] using hc
  rw [← Char.ofNat_toNat c]
  interval_cases c.toNat <;> decide

theorem valueWith_digit {c : Char} (hc : c.isDigit = true) (s : List Char)
    (nested : Option (List Char → Except Fault (Json × List Char))) :
    valueWith nested (c :: s) = do
      let (n, rest) ← unsignedNumber false (c :: s)
      return (.number n, rest) := by
  have hcases := digit_cases hc
  simp only [List.mem_cons, List.not_mem_nil, or_false] at hcases
  rcases hcases with rfl | rfl | rfl | rfl | rfl | rfl | rfl | rfl | rfl | rfl <;> rfl

theorem number_digit {c : Char} (hc : c.isDigit = true) (wanted : String) (depth : Nat)
    (s : List Char) :
    Reader.number wanted depth (c :: s) = unsignedNumber false (c :: s) := by
  have hcases := digit_cases hc
  simp only [List.mem_cons, List.not_mem_nil, or_false] at hcases
  rcases hcases with rfl | rfl | rfl | rfl | rfl | rfl | rfl | rfl | rfl | rfl <;> rfl

theorem exists_valueWith (depth : Nat) : ∃ nested, value depth = valueWith nested := by
  cases depth with
  | zero => exact ⟨none, rfl⟩
  | succ depth => exact ⟨some (value depth), rfl⟩

/-- A number that reads back has digits behind its sign, and these are read as the number. -/
theorem Number.ReadsBack.exists_digits {n : Number} (h : n.ReadsBack) :
    ∃ c s, c.isDigit = true ∧
      ((n.text.toList = c :: s ∧ unsignedNumber false (c :: s) = .ok (n, [])) ∨
        (n.text.toList = '-' :: c :: s ∧ unsignedNumber true (c :: s) = .ok (n, []))) := by
  have hread := h
  rw [Number.ReadsBack, value] at hread
  rcases text_cases n with hnull | ⟨c, s, hdigit, hplain | hsigned⟩
  · rw [hnull] at hread
    exact nomatch hread
  · rw [hplain, valueWith_digit hdigit] at hread
    obtain ⟨⟨m, rest⟩, hnumber, hread⟩ := bind_eq_ok.mp hread
    cases hread
    exact ⟨c, s, hdigit, .inl ⟨hplain, hnumber⟩⟩
  · rw [hsigned] at hread
    obtain ⟨⟨m, rest⟩, hnumber, hread⟩ := bind_eq_ok.mp hread
    cases hread
    exact ⟨c, s, hdigit, .inr ⟨hsigned, hnumber⟩⟩

theorem Number.ReadsBack.number {n : Number} (h : n.ReadsBack) (wanted : String) (depth : Nat) :
    (Reader.number wanted).Reads depth n (.number n) := by
  intro rest hrest
  rw [compact]
  obtain ⟨c, s, hdigit, ⟨htext, hread⟩ | ⟨htext, hread⟩⟩ := h.exists_digits
  · rw [htext, List.cons_append, number_digit hdigit]
    exact unsignedNumber_append hrest hread
  · rw [htext]
    exact unsignedNumber_append hrest hread

theorem Number.ReadsBack.value {n : Number} (h : n.ReadsBack) (depth : Nat) :
    Reader.Reads Json.value depth (.number n) (.number n) := by
  intro rest hrest
  obtain ⟨nested, hvalue⟩ := exists_valueWith depth
  rw [compact, hvalue]
  obtain ⟨c, s, hdigit, ⟨htext, hread⟩ | ⟨htext, hread⟩⟩ := h.exists_digits
  · rw [htext, List.cons_append, valueWith_digit hdigit]
    exact bind_eq_ok.mpr ⟨_, unsignedNumber_append hrest hread, rfl⟩
  · rw [htext]
    exact bind_eq_ok.mpr ⟨_, unsignedNumber_append hrest hread, rfl⟩

/-! ## Integers -/

theorem toList_repr (n : ℕ) : (Nat.repr n).toList = Nat.toDigits 10 n := by
  rw [Nat.repr_eq_ofList_toDigits, String.toList_ofList]

/-- Digits whose number fits 64 bits are all taken. -/
theorem takeFitting_eq {n : ℕ} {digits : List Char}
    (hfits : Nat.ofDigitChars 10 digits n < 2 ^ 64) :
    takeFitting n digits = (Nat.ofDigitChars 10 digits n, digits.length) := by
  induction digits generalizing n with
  | nil => rfl
  | cons c rest ih =>
      rw [Nat.ofDigitChars_cons] at hfits ⊢
      have hprefix : 10 * n + (c.toNat - '0'.toNat) < 2 ^ 64 := by
        have hmore :=
          @Nat.ofDigitChars_eq_ofDigitChars_zero rest (10 * n + (c.toNat - '0'.toNat))
        have hpow : 1 ≤ 10 ^ rest.length := Nat.one_le_pow _ _ (by norm_num)
        nlinarith
      rw [takeFitting]
      dsimp only
      rw [if_pos (show _ < Nat.pow 2 64 from hprefix), ih hfits]
      rfl

theorem head?_toDigits_ne {n : ℕ} (hpos : 0 < n) : (Nat.toDigits 10 n).head? ≠ some '0' := by
  induction n using Nat.strongRecOn with
  | ind n ih =>
      rw [Nat.toDigits_eq_if (by norm_num)]
      split_ifs with hdigit
      · interval_cases n <;> decide
      · have hhead := ih (n / 10) (by omega) (by omega)
        rwa [List.head?_append_of_ne_nil]
        exact List.length_pos_iff.mp Nat.length_toDigits_pos

/-- Digits of a number that fits 64 bits are read as an integer. -/
theorem numberParts_repr (negative : Bool) (n : ℕ) :
    numberParts .cutShort negative (Nat.repr n).toList =
      .ok (⟨negative, Nat.toDigits 10 n, [], none⟩, []) := by
  have hdigits : ∀ c ∈ Nat.toDigits 10 n, c.isDigit = true := fun c hc =>
    Nat.isDigit_of_mem_toDigits (by norm_num) le_rfl hc
  have htake : (Nat.repr n).toList.takeWhile Char.isDigit = Nat.toDigits 10 n := by
    rw [toList_repr]
    exact List.takeWhile_eq_self_iff.mpr hdigits
  have hdrop : (Nat.repr n).toList.dropWhile Char.isDigit = [] := by
    rw [toList_repr]
    exact List.dropWhile_eq_nil_iff.mpr hdigits
  refine numberParts_eq_ok.mpr ⟨[], [], none, ?_⟩
  rw [htake, hdrop]
  refine ⟨List.length_pos_iff.mp Nat.length_toDigits_pos, ?_, rfl, rfl, rfl⟩
  rintro ⟨hzero, hlength⟩
  rcases Nat.eq_zero_or_pos n with rfl | hpos
  · exact hlength rfl
  · exact head?_toDigits_ne hpos hzero

/-- Digits of a number that fits 64 bits make an integer, except behind a minus sign where they are
zero or too large. -/
theorem number?_of_lt {digits : List Char} (hfits : digitsValue digits < 2 ^ 64)
    (negative : Bool) :
    NumberParts.number? ⟨negative, digits, [], none⟩ =
      if !negative then some (.integer (digitsValue digits))
      else if 0 < digitsValue digits ∧ digitsValue digits ≤ Nat.pow 2 63 then
        some (.integer (-digitsValue digits))
      else some (.real (-Float.ofNat (digitsValue digits))) := by
  rw [digitsValue_eq] at hfits ⊢
  unfold NumberParts.number?
  rw [takeFitting_eq hfits]
  simp

theorem number?_repr {n : ℕ} (hn : n < 2 ^ 64) (negative : Bool) :
    NumberParts.number? ⟨negative, Nat.toDigits 10 n, [], none⟩ =
      if !negative then some (.integer n)
      else if 0 < n ∧ n ≤ Nat.pow 2 63 then some (.integer (-n))
      else some (.real (-Float.ofNat n)) := by
  have hvalue : digitsValue (Nat.toDigits 10 n) = n :=
    (digitsValue_eq _).trans Nat.ofDigitChars_ten_toDigits
  rw [number?_of_lt (by rwa [hvalue]), hvalue]

theorem unsignedNumber_repr {n : ℕ} (hn : n < 2 ^ 64) :
    unsignedNumber false (Nat.repr n).toList = .ok (.integer n, []) := by
  refine unsignedNumber_eq_ok.mpr ⟨_, numberParts_repr false n, ?_⟩
  rw [number?_repr hn]
  rfl

theorem unsignedNumber_repr_neg {n : ℕ} (hpos : 0 < n) (hn : n ≤ 2 ^ 63) :
    unsignedNumber true (Nat.repr n).toList = .ok (.integer (-n), []) := by
  refine unsignedNumber_eq_ok.mpr ⟨_, numberParts_repr true n, ?_⟩
  rw [number?_repr (by omega), if_neg (by decide), if_pos ⟨hpos, hn⟩]

/-- An integer of 64 bits, with a sign or without one. -/
def IsWord (n : Int) : Prop :=
  -2 ^ 63 ≤ n ∧ n < 2 ^ 64

theorem Number.readsBack_integer {n : Int} (hn : IsWord n) : (Number.integer n).ReadsBack := by
  obtain ⟨hlow, hhigh⟩ := hn
  have hnatural : ∀ m : ℕ, m < 2 ^ 64 → (Number.integer m).ReadsBack := by
    intro m hm
    obtain ⟨c, s, hdigits, hdigit⟩ := Decimal.exists_digit_repr m
    rw [ReadsBack, text_natCast, Json.value, hdigits, valueWith_digit hdigit, ← hdigits]
    exact bind_eq_ok.mpr ⟨_, unsignedNumber_repr hm, rfl⟩
  obtain ⟨m, rfl | rfl⟩ := n.eq_nat_or_neg
  · exact hnatural m (by omega)
  · cases m with
    | zero => exact hnatural 0 (by norm_num)
    | succ m =>
        rw [ReadsBack, text_neg, Json.value]
        exact bind_eq_ok.mpr ⟨_, unsignedNumber_repr_neg (Nat.succ_pos m) (by omega), rfl⟩

end Json

end ChartCompiler
