import ChartCompiler.Expression.HexColor
import Mathlib.Tactic.IntervalCases

/-!
# Texts that are colour codes

The grammar of colour codes, and that a text is read exactly as it says: `#` and six digits for
three bytes, or `#` and three digits, each of which counts twice. A colour is read back from its
code in lower case: `Rgb.parse?_exact`.
-/

namespace ChartCompiler

/-! ## Digits -/

/-- The digits to base sixteen in order, with letters of lower case. -/
def hexAlphabet : List Char :=
  "0123456789abcdef".toList

/-- An ASCII digit to base sixteen, in either case. -/
def IsHexDigit (c : Char) : Prop :=
  c ∈ "0123456789abcdefABCDEF".toList

/-- The number that a digit stands for is its place. -/
def hexDigitValue (c : Char) : Nat :=
  hexAlphabet.idxOf c.toLower

theorem hexValue?_of_isHexDigit {c : Char} (hc : IsHexDigit c) :
    hexValue? c = some (hexDigitValue c) := by
  have hall : ("0123456789abcdefABCDEF".toList.all fun c =>
      hexValue? c = some (hexDigitValue c)) = true := by decide
  exact of_decide_eq_true (List.all_eq_true.mp hall c hc)

/-- A character between two others is one of those whose numbers lie between theirs. -/
theorem toNat_between {low high c : Char} (hc : low ≤ c ∧ c ≤ high) :
    low.toNat ≤ c.toNat ∧ c.toNat ≤ high.toNat := by
  simpa [Char.le_def, UInt32.le_iff_toNat_le] using hc

theorem isHexDigit_of_hexValue? {c : Char} (hc : (hexValue? c).isSome = true) : IsHexDigit c := by
  have hcases : ('0'.toNat ≤ c.toNat ∧ c.toNat ≤ '9'.toNat) ∨
      ('a'.toNat ≤ c.toNat ∧ c.toNat ≤ 'f'.toNat) ∨
      ('A'.toNat ≤ c.toNat ∧ c.toNat ≤ 'F'.toNat) := by
    unfold hexValue? at hc
    split_ifs at hc with hdigit hlower hupper
    · exact .inl (toNat_between (by simpa [Char.isDigit, Char.le_def] using hdigit))
    · exact .inr (.inl (toNat_between hlower))
    · exact .inr (.inr (toNat_between hupper))
    · exact nomatch hc
  -- Only ASCII characters are left, and these are tried one by one.
  unfold IsHexDigit
  rw [← Char.ofNat_toNat c]
  rcases hcases with ⟨hlow, hhigh⟩ | ⟨hlow, hhigh⟩ | ⟨hlow, hhigh⟩
  · change 48 ≤ _ at hlow
    change _ ≤ 57 at hhigh
    interval_cases c.toNat <;> decide
  · change 97 ≤ _ at hlow
    change _ ≤ 102 at hhigh
    interval_cases c.toNat <;> decide
  · change 65 ≤ _ at hlow
    change _ ≤ 70 at hhigh
    interval_cases c.toNat <;> decide

theorem isSome_hexValue?_iff {c : Char} : (hexValue? c).isSome = true ↔ IsHexDigit c :=
  ⟨isHexDigit_of_hexValue?, fun hc => by rw [hexValue?_of_isHexDigit hc]; rfl⟩

theorem hexValue?_eq_some_iff {c : Char} {n : Nat} :
    hexValue? c = some n ↔ IsHexDigit c ∧ n = hexDigitValue c := by
  constructor
  · intro hvalue
    have hc := isSome_hexValue?_iff.mp (Option.isSome_iff_exists.mpr ⟨n, hvalue⟩)
    rw [hexValue?_of_isHexDigit hc] at hvalue
    exact ⟨hc, (Option.some.inj hvalue).symm⟩
  · rintro ⟨hc, rfl⟩
    exact hexValue?_of_isHexDigit hc

/-! ## Grammar -/

namespace Rgb

/-- The byte that two digits write, the higher one first. -/
def byteOf (high low : Char) : UInt8 :=
  UInt8.ofNat (16 * hexDigitValue high + hexDigitValue low)

/-- The code of six digits: a pair for each part in order, and nothing else. -/
inductive WritesSix : Rgb → List Char → Prop
  | pairs {r r' g g' b b' : Char} (digits : ∀ c ∈ [r, r', g, g', b, b'], IsHexDigit c) :
      WritesSix ⟨byteOf r r', byteOf g g', byteOf b b'⟩ ['#', r, r', g, g', b, b']

/-- The code of three digits stands for the one in which each of them is doubled. -/
def WritesThree (color : Rgb) (s : List Char) : Prop :=
  ∃ r g b, s = ['#', r, g, b] ∧ color.WritesSix ['#', r, r, g, g, b, b]

/-- `#`, and then so many digits and nothing else. -/
def IsCode (count : Nat) (s : List Char) : Prop :=
  ∃ digits, s = '#' :: digits ∧ digits.length = count ∧ ∀ c ∈ digits, IsHexDigit c

def bytePair (byte : UInt8) : List Char :=
  [Nat.digitChar (byte.toNat / 16), Nat.digitChar (byte.toNat % 16)]

/-- The code of a colour in lower case. -/
def code (color : Rgb) : String :=
  String.ofList ('#' :: (bytePair color.red ++ bytePair color.green ++ bytePair color.blue))

variable {color : Rgb} {s : List Char}

theorem WritesSix.length_eq (hs : color.WritesSix s) : s.length = 7 := by
  cases hs
  rfl

theorem WritesThree.length_eq (hs : color.WritesThree s) : s.length = 4 := by
  obtain ⟨r, g, b, rfl, -⟩ := hs
  rfl

theorem writesThree_iff_double {r g b : Char} :
    color.WritesThree ['#', r, g, b] ↔ color.WritesSix ['#', r, r, g, g, b, b] := by
  constructor
  · rintro ⟨r', g', b', heq, hsix⟩
    cases heq
    exact hsix
  · exact fun hsix => ⟨r, g, b, rfl, hsix⟩

theorem exists_writesSix_iff : (∃ color : Rgb, color.WritesSix s) ↔ IsCode 6 s := by
  constructor
  · rintro ⟨color, hsix⟩
    cases hsix with
    | pairs hdigits => exact ⟨_, rfl, rfl, hdigits⟩
  · rintro ⟨digits, rfl, hlength, hdigits⟩
    match digits, hlength with
    | [r, r', g, g', b, b'], _ => exact ⟨_, .pairs hdigits⟩

theorem exists_writesThree_iff : (∃ color : Rgb, color.WritesThree s) ↔ IsCode 3 s := by
  constructor
  · rintro ⟨color, r, g, b, rfl, hsix⟩
    obtain ⟨digits, heq, -, hdigits⟩ := exists_writesSix_iff.mp ⟨color, hsix⟩
    cases heq
    exact ⟨[r, g, b], rfl, rfl, fun c hc => hdigits c (by simp_all)⟩
  · rintro ⟨digits, rfl, hlength, hdigits⟩
    match digits, hlength with
    | [r, g, b], _ =>
        have hdoubled : ∀ c ∈ [r, r, g, g, b, b], IsHexDigit c :=
          fun c hc => hdigits c (by simp_all)
        exact ⟨_, r, g, b, rfl, .pairs hdoubled⟩

/-! ## Reading -/

theorem byte?_eq_some_iff {high low : Char} {byte : UInt8} :
    byte? high low = some byte ↔
      (IsHexDigit high ∧ IsHexDigit low) ∧ byte = byteOf high low := by
  constructor
  · intro hbyte
    unfold byte? at hbyte
    split at hbyte
    · next hhigh hlow =>
        obtain ⟨hhighDigit, rfl⟩ := hexValue?_eq_some_iff.mp hhigh
        obtain ⟨hlowDigit, rfl⟩ := hexValue?_eq_some_iff.mp hlow
        exact ⟨⟨hhighDigit, hlowDigit⟩, (Option.some.inj hbyte).symm⟩
    · exact nomatch hbyte
  · rintro ⟨⟨hhigh, hlow⟩, rfl⟩
    rw [byte?, hexValue?_of_isHexDigit hhigh, hexValue?_of_isHexDigit hlow]
    rfl

theorem ofDigits?_eq_some_iff {r r' g g' b b' : Char} :
    ofDigits? r r' g g' b b' = some color ↔
      (∀ c ∈ [r, r', g, g', b, b'], IsHexDigit c) ∧
        color = ⟨byteOf r r', byteOf g g', byteOf b b'⟩ := by
  constructor
  · intro hcolor
    unfold ofDigits? at hcolor
    split at hcolor
    · next hred hgreen hblue =>
        obtain ⟨hreds, rfl⟩ := byte?_eq_some_iff.mp hred
        obtain ⟨hgreens, rfl⟩ := byte?_eq_some_iff.mp hgreen
        obtain ⟨hblues, rfl⟩ := byte?_eq_some_iff.mp hblue
        exact ⟨by simp [hreds, hgreens, hblues], (Option.some.inj hcolor).symm⟩
    · exact nomatch hcolor
  · rintro ⟨hdigits, rfl⟩
    simp only [List.forall_mem_cons] at hdigits
    obtain ⟨hr, hr', hg, hg', hb, hb', -⟩ := hdigits
    rw [ofDigits?, byte?_eq_some_iff.mpr ⟨⟨hr, hr'⟩, rfl⟩,
      byte?_eq_some_iff.mpr ⟨⟨hg, hg'⟩, rfl⟩, byte?_eq_some_iff.mpr ⟨⟨hb, hb'⟩, rfl⟩]

theorem parseSix?_eq_some_iff : parseSix? s = some color ↔ color.WritesSix s := by
  constructor
  · intro hparse
    unfold parseSix? at hparse
    split at hparse
    · next found hscan =>
        cases hparse
        unfold scanSix? at hscan
        split at hscan
        · next r r' g g' b b' rest =>
            obtain ⟨other, hdigits, hpair⟩ := Option.map_eq_some_iff.mp hscan
            cases hpair
            obtain ⟨hhex, rfl⟩ := ofDigits?_eq_some_iff.mp hdigits
            exact .pairs hhex
        · exact nomatch hscan
    · exact nomatch hparse
  · rintro ⟨hhex⟩
    rw [parseSix?, scanSix?, ofDigits?_eq_some_iff.mpr ⟨hhex, rfl⟩]
    rfl

theorem parseThree?_eq_some_iff : parseThree? s = some color ↔ color.WritesThree s := by
  constructor
  · intro hparse
    unfold parseThree? at hparse
    split at hparse
    · next r g b =>
        obtain ⟨hhex, rfl⟩ := ofDigits?_eq_some_iff.mp hparse
        exact ⟨r, g, b, rfl, .pairs hhex⟩
    · exact nomatch hparse
  · rintro ⟨r, g, b, rfl, hsix⟩
    cases hsix with
    | pairs hhex => exact ofDigits?_eq_some_iff.mpr ⟨hhex, rfl⟩

/-- No text is a code of both forms. -/
theorem WritesThree.parseSix?_eq_none (hs : color.WritesThree s) : parseSix? s = none := by
  refine Option.eq_none_iff_forall_ne_some.mpr fun other hparse => ?_
  have hseven := (parseSix?_eq_some_iff.mp hparse).length_eq
  rw [hs.length_eq] at hseven
  exact absurd hseven (by decide)

theorem parse?_eq_some_iff :
    parse? s = some color ↔ color.WritesSix s ∨ color.WritesThree s := by
  unfold parse?
  rw [Option.or_eq_some_iff, parseSix?_eq_some_iff, parseThree?_eq_some_iff]
  constructor
  · rintro (hsix | ⟨-, hthree⟩)
    · exact .inl hsix
    · exact .inr hthree
  · rintro (hsix | hthree)
    · exact .inl hsix
    · exact .inr ⟨hthree.parseSix?_eq_none, hthree⟩

/-- Codes of both forms are read, and nothing else. -/
theorem exists_parse?_iff :
    (∃ color, parse? s = some color) ↔ IsCode 3 s ∨ IsCode 6 s := by
  simp only [parse?_eq_some_iff, exists_or, exists_writesSix_iff, exists_writesThree_iff]
  exact Or.comm

/-- A code of three digits is read as the one in which each of them is doubled. -/
theorem parse?_double (r g b : Char) :
    parse? ['#', r, g, b] = parse? ['#', r, r, g, g, b, b] := by
  refine Option.ext fun color => ?_
  rw [parse?_eq_some_iff, parse?_eq_some_iff, writesThree_iff_double]
  have hshort : ¬color.WritesSix ['#', r, g, b] :=
    fun hsix => nomatch hsix.length_eq
  have hlong : ¬color.WritesThree ['#', r, r, g, g, b, b] :=
    fun hthree => nomatch hthree.length_eq
  rw [or_iff_right hshort, or_iff_left hlong]

/-! ## Writing -/

theorem digitChar_spec {n : Nat} (hn : n < 16) :
    IsHexDigit (Nat.digitChar n) ∧ hexDigitValue (Nat.digitChar n) = n := by
  interval_cases n <;> exact ⟨by unfold IsHexDigit; decide, by decide⟩

/-- The pair of digits stands for the byte. -/
theorem byteOf_bytePair (byte : UInt8) :
    (∀ c ∈ bytePair byte, IsHexDigit c) ∧
      byteOf (Nat.digitChar (byte.toNat / 16)) (Nat.digitChar (byte.toNat % 16)) = byte := by
  have hbyte : byte.toNat < 256 := byte.toNat_lt
  obtain ⟨hhigh, hhighValue⟩ := digitChar_spec (n := byte.toNat / 16) (by omega)
  obtain ⟨hlow, hlowValue⟩ := digitChar_spec (n := byte.toNat % 16) (by omega)
  refine ⟨by simp [bytePair, hhigh, hlow], ?_⟩
  rw [byteOf, hhighValue, hlowValue, Nat.div_add_mod, UInt8.ofNat_toNat]

theorem writesSix_code (color : Rgb) : color.WritesSix color.code.toList := by
  obtain ⟨red, green, blue⟩ := color
  obtain ⟨hreds, hred⟩ := byteOf_bytePair red
  obtain ⟨hgreens, hgreen⟩ := byteOf_bytePair green
  obtain ⟨hblues, hblue⟩ := byteOf_bytePair blue
  have hdigits : ∀ c ∈ bytePair red ++ bytePair green ++ bytePair blue, IsHexDigit c :=
    List.forall_mem_append.mpr ⟨List.forall_mem_append.mpr ⟨hreds, hgreens⟩, hblues⟩
  have hcode := WritesSix.pairs hdigits
  rw [hred, hgreen, hblue] at hcode
  rw [code, String.toList_ofList]
  exact hcode

/-- For every text: it is read as a colour exactly if it is `#` with three or with six ASCII digits
to base sixteen and nothing else, and as a code of six digits exactly if it is that. Six digits are
three bytes in order, three digits are read as if each were doubled. Every colour is read back from
its code in lower case. -/
theorem parse?_exact (s : String) :
    ((∃ color, parse? s.toList = some color) ↔ IsCode 3 s.toList ∨ IsCode 6 s.toList) ∧
      ((parseSix? s.toList).isSome = true ↔ IsCode 6 s.toList) ∧
      (∀ color : Rgb, parse? s.toList = some color ↔
        color.WritesSix s.toList ∨ color.WritesThree s.toList) ∧
      (∀ r g b, parse? ['#', r, g, b] = parse? ['#', r, r, g, g, b, b]) ∧
      ∀ color : Rgb, parse? color.code.toList = some color := by
  refine ⟨exists_parse?_iff, ?_, fun color => parse?_eq_some_iff, parse?_double, fun color => ?_⟩
  · simp only [Option.isSome_iff_exists, parseSix?_eq_some_iff, exists_writesSix_iff]
  · exact parse?_eq_some_iff.mpr (.inl color.writesSix_code)

example : code ⟨255, 0, 170⟩ = "#ff00aa" ∧ parse? "#F0a".toList = some ⟨255, 0, 170⟩ := by decide

end Rgb

end ChartCompiler
