import ChartCompiler.Expression.Position
import ChartCompiler.Proofs.Double.Signs
import ChartCompiler.Proofs.NumberTexts

/-!
# Number literals

The grammar of number literals, apart from the scanner that reads them: a numeral stands for the
double nearest to the number that it writes, and `nan` and `inf` stand for themselves in any case.
The scanner takes a literal off the front of a text exactly if one stands there, and no literal goes
on behind it: `Literal.scan_append` and `Literal.exists_of_scan`.
-/

namespace ChartCompiler

open Double

/-! ## Grammar -/

def AreDigits (s : List Char) : Prop :=
  ∀ c ∈ s, c.isDigit = true

namespace Numeral

/-- A sign that may be left out, and whether it is a minus. -/
inductive WritesSign : Bool → List Char → Prop
  | none : WritesSign false []
  | plus : WritesSign false ['+']
  | minus : WritesSign true ['-']

/-- Digits that may have a point among them, before the first one or behind the last one. -/
inductive WritesDigits : List Char → List Char → List Char → Prop
  | whole {whole : List Char} (digits : AreDigits whole) (some : whole ≠ []) :
      WritesDigits whole [] whole
  | pointed {whole fraction : List Char} (digits : AreDigits whole) (places : AreDigits fraction)
      (some : whole ++ fraction ≠ []) : WritesDigits whole fraction (whole ++ '.' :: fraction)

inductive WritesExponent : ℤ → List Char → Prop
  | none : WritesExponent 0 []
  | power {letter : Char} {negative : Bool} {sign digits : List Char}
      (marked : letter = 'e' ∨ letter = 'E') (signed : WritesSign negative sign)
      (whole : AreDigits digits) (some : digits ≠ []) :
      WritesExponent (if negative then -(digitsValue digits : ℤ) else digitsValue digits)
        (letter :: (sign ++ digits))

inductive IsWritten (n : Numeral) : List Char → Prop
  | parts {sign digits power : List Char} (signed : WritesSign n.negative sign)
      (placed : WritesDigits n.whole n.fraction digits)
      (scaled : WritesExponent n.exponent power) : IsWritten n (sign ++ (digits ++ power))

end Numeral

namespace Literal

inductive IsWritten (v : Float) : List Char → Prop
  | numeral {n : Numeral} {s : List Char} (text : n.IsWritten s)
      (nearest : Rounds v (n.number : ℚ)) (sign : isSigned v = n.negative) : IsWritten v s
  | nan {s : List Char} (text : lowerAscii s = "nan".toList) (value : v = 0.0 / 0.0) :
      IsWritten v s
  | infinity {s : List Char} (text : lowerAscii s = "inf".toList) (value : v = infinity) :
      IsWritten v s

/-- No numeral goes on here. -/
def Stops (rest : List Char) : Prop :=
  ∀ c ∈ rest.head?, c.isDigit = false ∧ c ≠ '.' ∧ c ≠ 'e' ∧ c ≠ 'E'

end Literal

/-! ## Reading numerals -/

section Digits

variable {digits rest : List Char} (hdigits : AreDigits digits)
  (hrest : ∀ c ∈ rest.head?, c.isDigit = false)
include hdigits hrest

theorem AreDigits.takeWhile_append : (digits ++ rest).takeWhile Char.isDigit = digits := by
  rw [List.takeWhile_append_of_pos hdigits]
  cases rest with
  | nil => rw [List.takeWhile_nil, List.append_nil]
  | cons c rest =>
      have hc := hrest c rfl
      rw [List.takeWhile_cons_of_neg (by simp [hc]), List.append_nil]

theorem AreDigits.dropWhile_append : (digits ++ rest).dropWhile Char.isDigit = rest := by
  rw [List.dropWhile_append_of_pos hdigits]
  cases rest with
  | nil => rfl
  | cons c rest =>
      have hc := hrest c rfl
      exact List.dropWhile_cons_of_neg (by simp [hc])

end Digits

theorem areDigits_takeWhile (s : List Char) : AreDigits (s.takeWhile Char.isDigit) :=
  fun _ hc => List.mem_takeWhile_imp hc

namespace Numeral

/-- A digit or a point, which comes behind the sign, is no sign. -/
theorem ne_sign {c : Char} (hc : c.isDigit = true ∨ c = '.') : c ≠ '-' ∧ c ≠ '+' := by
  constructor
  · rintro rfl
    exact absurd hc (by decide)
  · rintro rfl
    exact absurd hc (by decide)

theorem WritesSign.scanSign_append {negative : Bool} {sign rest : List Char}
    (hsign : WritesSign negative sign)
    (hrest : ∀ c ∈ rest.head?, c.isDigit = true ∨ c = '.') :
    scanSign (sign ++ rest) = (negative, rest) := by
  cases hsign with
  | plus => rfl
  | minus => rfl
  | none =>
      rw [List.nil_append]
      unfold scanSign
      split
      · exact absurd rfl (ne_sign (hrest '-' rfl)).1
      · exact absurd rfl (ne_sign (hrest '+' rfl)).2
      · rfl

theorem exists_writesSign (s : List Char) :
    ∃ sign, WritesSign (scanSign s).1 sign ∧ s = sign ++ (scanSign s).2 := by
  unfold scanSign
  split
  · exact ⟨_, .minus, rfl⟩
  · exact ⟨_, .plus, rfl⟩
  · exact ⟨_, .none, rfl⟩

/-- The first character is a digit or the point. -/
theorem WritesDigits.head {whole fraction digits : List Char}
    (hdigits : WritesDigits whole fraction digits) (rest : List Char) :
    ∀ c ∈ (digits ++ rest).head?, c.isDigit = true ∨ c = '.' := by
  cases hdigits with
  | whole hwhole hsome =>
      obtain ⟨d, tail, rfl⟩ := List.exists_cons_of_ne_nil hsome
      rintro _ ⟨⟩
      exact .inl (hwhole d List.mem_cons_self)
  | pointed hwhole hplaces hsome =>
      cases whole with
      | nil =>
          rintro _ ⟨⟩
          exact .inr rfl
      | cons d tail =>
          rintro _ ⟨⟩
          exact .inl (hwhole d List.mem_cons_self)

theorem WritesDigits.scanDigits?_append {whole fraction digits rest : List Char}
    (hdigits : WritesDigits whole fraction digits)
    (hrest : ∀ c ∈ rest.head?, c.isDigit = false ∧ c ≠ '.') :
    scanDigits? (digits ++ rest) = some (whole, fraction, rest) := by
  have hother : ∀ c ∈ rest.head?, c.isDigit = false := fun c hc => (hrest c hc).1
  cases hdigits with
  | whole hwhole hsome =>
      unfold scanDigits?
      rw [hwhole.takeWhile_append hother, hwhole.dropWhile_append hother]
      split
      · exact absurd rfl (hrest '.' rfl).2
      · rw [if_neg (by simpa using hsome)]
  | pointed hwhole hplaces hsome =>
      have hpoint : ∀ c ∈ ('.' :: (fraction ++ rest)).head?, c.isDigit = false := by
        rintro _ ⟨⟩
        rfl
      unfold scanDigits?
      rw [List.append_assoc, List.cons_append, hwhole.takeWhile_append hpoint,
        hwhole.dropWhile_append hpoint]
      change (if whole.isEmpty && ((fraction ++ rest).takeWhile Char.isDigit).isEmpty then none
        else some (whole, (fraction ++ rest).takeWhile Char.isDigit,
          (fraction ++ rest).dropWhile Char.isDigit)) = _
      rw [hplaces.takeWhile_append hother, hplaces.dropWhile_append hother, if_neg]
      simpa using hsome

theorem exists_writesDigits {s whole fraction rest : List Char}
    (hscan : scanDigits? s = some (whole, fraction, rest)) :
    ∃ digits, WritesDigits whole fraction digits ∧ s = digits ++ rest := by
  have hsplit := List.takeWhile_append_dropWhile (p := Char.isDigit) (l := s)
  unfold scanDigits? at hscan
  split at hscan
  · next after hafter =>
      dsimp only at hscan
      split_ifs at hscan with hnone
      cases hscan
      refine ⟨_, .pointed (areDigits_takeWhile s) (areDigits_takeWhile after)
        (by simpa using hnone), ?_⟩
      conv_lhs => rw [← hsplit, hafter]
      rw [List.append_assoc, List.cons_append, List.takeWhile_append_dropWhile]
  · dsimp only at hscan
    split_ifs at hscan with hnone
    cases hscan
    exact ⟨_, .whole (areDigits_takeWhile s) (by simpa using hnone), hsplit.symm⟩

theorem WritesExponent.scanExponent?_append {exponent : ℤ} {power rest : List Char}
    (hpower : WritesExponent exponent power) (hrest : Literal.Stops rest) :
    scanExponent? (power ++ rest) = some (exponent, rest) := by
  cases hpower with
  | none =>
      cases rest with
      | nil => rfl
      | cons c rest =>
          obtain ⟨-, -, hsmall, hlarge⟩ := hrest c rfl
          rw [List.nil_append, scanExponent?, if_neg (not_or_intro hsmall hlarge)]
  | @power letter negative sign digits hletter hsign hdigits hsome =>
      have hother : ∀ c ∈ rest.head?, c.isDigit = false := fun c hc => (hrest c hc).1
      have hhead : ∀ c ∈ (digits ++ rest).head?, c.isDigit = true ∨ c = '.' :=
        (WritesDigits.whole hdigits hsome).head rest
      rw [List.cons_append, List.append_assoc, scanExponent?, if_pos hletter,
        hsign.scanSign_append hhead]
      dsimp only
      rw [hdigits.takeWhile_append hother, hdigits.dropWhile_append hother,
        if_neg (by simpa using hsome)]

theorem exists_writesExponent {s rest : List Char} {exponent : ℤ}
    (hscan : scanExponent? s = some (exponent, rest)) :
    ∃ power, WritesExponent exponent power ∧ s = power ++ rest := by
  cases s with
  | nil =>
      cases hscan
      exact ⟨_, .none, rfl⟩
  | cons c s =>
      rw [scanExponent?] at hscan
      by_cases hletter : c = 'e' ∨ c = 'E'
      · rw [if_pos hletter] at hscan
        dsimp only at hscan
        obtain ⟨sign, hsign, hsplit⟩ := exists_writesSign s
        by_cases hnone : ((scanSign s).2.takeWhile Char.isDigit).isEmpty = true
        · rw [if_pos hnone] at hscan
          cases hscan
        · rw [if_neg hnone] at hscan
          cases hscan
          refine ⟨_, .power hletter hsign (areDigits_takeWhile _) (by simpa using hnone), ?_⟩
          rw [List.cons_append, List.append_assoc, List.takeWhile_append_dropWhile, ← hsplit]
      · rw [if_neg hletter] at hscan
        cases hscan
        exact ⟨_, .none, rfl⟩

/-- What comes behind the digits is neither a digit nor a point. -/
theorem WritesExponent.head {exponent : ℤ} {power rest : List Char}
    (hpower : WritesExponent exponent power) (hrest : Literal.Stops rest) :
    ∀ c ∈ (power ++ rest).head?, c.isDigit = false ∧ c ≠ '.' := by
  cases hpower with
  | none => exact fun c hc => ⟨(hrest c hc).1, (hrest c hc).2.1⟩
  | power hletter hsign hdigits hsome =>
      rintro _ ⟨⟩
      rcases hletter with rfl | rfl <;> exact ⟨rfl, by decide⟩

/-- A numeral is read as far as it goes. -/
theorem IsWritten.scan_append {n : Numeral} {s rest : List Char} (hs : n.IsWritten s)
    (hrest : Literal.Stops rest) : scan (s ++ rest) = .found n rest := by
  cases hs with
  | @parts sign digits power hsign hdigits hpower =>
      unfold scan
      rw [List.append_assoc, List.append_assoc,
        hsign.scanSign_append (hdigits.head (power ++ rest))]
      dsimp only
      rw [hdigits.scanDigits?_append (hpower.head hrest)]
      dsimp only
      rw [hpower.scanExponent?_append hrest]

theorem exists_of_scan {n : Numeral} {s rest : List Char} (hscan : scan s = .found n rest) :
    ∃ front, n.IsWritten front ∧ s = front ++ rest := by
  obtain ⟨sign, hsign, hsplit⟩ := exists_writesSign s
  unfold scan at hscan
  dsimp only at hscan
  split at hscan
  · exact nomatch hscan
  · next whole fraction afterDigits hfound =>
      obtain ⟨digits, hdigits, hdigitsSplit⟩ := exists_writesDigits hfound
      split at hscan
      · exact nomatch hscan
      · next exponent after hexponent =>
          obtain ⟨power, hpower, hpowerSplit⟩ := exists_writesExponent hexponent
          cases hscan
          refine ⟨_, .parts hsign hdigits hpower, ?_⟩
          rw [List.append_assoc, List.append_assoc, ← hpowerSplit, ← hdigitsSplit, ← hsplit]

/-- A text without a digit or a point at its front, or behind a sign there, is no numeral. -/
theorem scan_eq_absent {s : List Char}
    (hhead : ∀ c ∈ (scanSign s).2.head?, c.isDigit = false ∧ c ≠ '.') : scan s = .absent := by
  have hnone : scanDigits? (scanSign s).2 = none := by
    refine Option.eq_none_iff_forall_ne_some.mpr ?_
    rintro ⟨whole, fraction, rest⟩ hfound
    obtain ⟨digits, hdigits, hsplit⟩ := exists_writesDigits hfound
    have hfirst := hdigits.head rest
    rw [← hsplit] at hfirst
    cases hdigit : (scanSign s).2.head? with
    | none =>
        have hempty := List.head?_eq_none_iff.mp hdigit
        rw [hempty] at hfound
        exact nomatch hfound
    | some c =>
        obtain ⟨hother, hpoint⟩ := hhead c hdigit
        rcases hfirst c hdigit with hc | hc
        · rw [hother] at hc
          exact nomatch hc
        · exact hpoint hc
  unfold scan
  dsimp only
  rw [hnone]

/-- A character that a numeral may begin with. -/
def Begins (c : Char) : Prop :=
  c.isDigit = true ∨ c = '.' ∨ c = '-' ∨ c = '+'

instance (c : Char) : Decidable (Begins c) :=
  inferInstanceAs (Decidable (_ ∨ _))

theorem Begins.toLower {c : Char} (hc : Begins c) : c.toLower = c := by
  rcases hc with hdigit | rfl | rfl | rfl
  · have hcases := Json.digit_cases hdigit
    simp only [List.mem_cons, List.not_mem_nil, or_false] at hcases
    rcases hcases with rfl | rfl | rfl | rfl | rfl | rfl | rfl | rfl | rfl | rfl <;> rfl
  · rfl
  · rfl
  · rfl

/-- No numeral begins with a letter. -/
theorem scan_eq_absent_of_toLower {c letter : Char} (hc : c.toLower = letter)
    (hletter : ¬Begins letter) (s : List Char) : scan (c :: s) = .absent := by
  -- Lower case changes letters only, and no letter begins a numeral.
  have hother : ¬Begins c := fun hbegins => hletter (hc ▸ hbegins.toLower.symm ▸ hbegins)
  simp only [Begins, not_or, Bool.not_eq_true] at hother
  obtain ⟨hdigit, hpoint, hminus, hplus⟩ := hother
  have hsign : scanSign (c :: s) = (false, c :: s) := by
    unfold scanSign
    split
    · next heq => exact absurd (List.cons.inj heq).1 hminus
    · next heq => exact absurd (List.cons.inj heq).1 hplus
    · rfl
  refine scan_eq_absent ?_
  rw [hsign]
  rintro _ ⟨⟩
  exact ⟨hdigit, hpoint⟩

end Numeral

/-! ## Reading literals -/

theorem afterWord?_eq_some_iff {word : String} {s rest : List Char} :
    afterWord? word s = some rest ↔
      ∃ front, lowerAscii front = word.toList ∧ s = front ++ rest := by
  unfold afterWord?
  dsimp only
  constructor
  · intro hfound
    split_ifs at hfound with hword
    cases hfound
    exact ⟨_, hword, (List.take_append_drop _ s).symm⟩
  · rintro ⟨front, hword, rfl⟩
    have hlength : front.length = word.length := by
      rw [← String.length_toList, ← hword, lowerAscii, List.length_map]
    rw [← hlength, List.take_left, List.drop_left, if_pos hword]

theorem afterWord?_eq_none {word : String} {c : Char} {first : Char} {more : List Char}
    (hword : word.toList = first :: more) (hc : c.toLower ≠ first) (s : List Char) :
    afterWord? word (c :: s) = none := by
  refine Option.eq_none_iff_forall_ne_some.mpr fun rest hfound => ?_
  obtain ⟨front, hfront, hsplit⟩ := afterWord?_eq_some_iff.mp hfound
  rw [hword] at hfront
  cases front with
  | nil => exact nomatch hfront
  | cons d front =>
      obtain ⟨rfl, -⟩ := List.cons.inj hsplit
      exact hc (List.cons.inj hfront).1

/-- The first character of a word in any case. -/
theorem exists_toLower_eq {front more : List Char} {first : Char}
    (hfront : lowerAscii front = first :: more) :
    ∃ c tail, front = c :: tail ∧ c.toLower = first := by
  cases front with
  | nil => exact nomatch hfront
  | cons c tail => exact ⟨c, tail, rfl, (List.cons.inj hfront).1⟩

namespace Literal

variable {v : Float} {s rest : List Char}

theorem nan_eq : "nan".toList = ['n', 'a', 'n'] := rfl

theorem inf_eq : "inf".toList = ['i', 'n', 'f'] := rfl

/-- A literal is read as far as it goes. -/
theorem IsWritten.scan_append (hs : IsWritten v s) (hrest : Stops rest) :
    scan (s ++ rest) = .found v rest := by
  cases hs with
  | @numeral n _ htext hnearest hsign =>
      have hvalue : v = n.value := hnearest.eq_of_isSigned n.rounds_value
        (hsign.trans n.isSigned_value.symm)
      rw [scan, htext.scan_append hrest, hvalue]
  | nan htext hvalue =>
      obtain ⟨c, tail, rfl, hc⟩ := exists_toLower_eq htext
      have hnone := Numeral.scan_eq_absent_of_toLower hc (by decide) (tail ++ rest)
      have hword : afterWord? "nan" (c :: tail ++ rest) = some rest :=
        afterWord?_eq_some_iff.mpr ⟨_, htext, rfl⟩
      rw [scan, List.cons_append, hnone, ← List.cons_append, hword, hvalue]
  | infinity htext hvalue =>
      obtain ⟨c, tail, rfl, hc⟩ := exists_toLower_eq htext
      have hnone := Numeral.scan_eq_absent_of_toLower hc (by decide) (tail ++ rest)
      have hother : afterWord? "nan" (c :: (tail ++ rest)) = none :=
        afterWord?_eq_none nan_eq (by rw [hc]; decide) _
      have hword : afterWord? "inf" (c :: tail ++ rest) = some rest :=
        afterWord?_eq_some_iff.mpr ⟨_, htext, rfl⟩
      rw [scan, List.cons_append, hnone, hother, ← List.cons_append, hword, hvalue]

theorem exists_of_scan (hscan : scan s = .found v rest) :
    ∃ front, IsWritten v front ∧ s = front ++ rest := by
  unfold scan at hscan
  split at hscan
  · next numeral after hnumeral =>
      obtain ⟨front, hfront, hsplit⟩ := Numeral.exists_of_scan hnumeral
      cases hscan
      exact ⟨front, .numeral hfront numeral.rounds_value numeral.isSigned_value, hsplit⟩
  · exact nomatch hscan
  · split at hscan
    · next after _ hnan =>
        obtain ⟨front, hfront, hsplit⟩ := afterWord?_eq_some_iff.mp hnan
        cases hscan
        exact ⟨front, .nan hfront rfl, hsplit⟩
    · next after _ hinfinity =>
        obtain ⟨front, hfront, hsplit⟩ := afterWord?_eq_some_iff.mp hinfinity
        cases hscan
        exact ⟨front, .infinity hfront rfl, hsplit⟩
    · exact nomatch hscan

/-- No literal begins with a letter, but for the two that are words. -/
theorem scan_eq_absent_of_toLower {c letter : Char} (hc : c.toLower = letter)
    (hletter : ¬Numeral.Begins letter) (hwords : letter ≠ 'n' ∧ letter ≠ 'i') (s : List Char) :
    scan (c :: s) = .absent := by
  have hnan : afterWord? "nan" (c :: s) = none :=
    afterWord?_eq_none nan_eq (by rw [hc]; exact hwords.1) s
  have hinfinity : afterWord? "inf" (c :: s) = none :=
    afterWord?_eq_none inf_eq (by rw [hc]; exact hwords.2) s
  rw [scan, Numeral.scan_eq_absent_of_toLower hc hletter, hnan, hinfinity]

end Literal

/-! ## Blanks and separators -/

/-- Blanks only, possibly none. -/
def AreBlanks (s : List Char) : Prop :=
  ∀ c ∈ s, isBlank c = true

theorem AreBlanks.skipBlanks_append {a : List Char} (ha : AreBlanks a) (s : List Char) :
    skipBlanks (a ++ s) = skipBlanks s :=
  List.dropWhile_append_of_pos ha

theorem AreBlanks.skipBlanks_eq {a : List Char} (ha : AreBlanks a) : skipBlanks a = [] :=
  List.dropWhile_eq_nil_iff.mpr ha

theorem skipBlanks_eq_self {s : List Char} (hs : ∀ c ∈ s.head?, isBlank c = false) :
    skipBlanks s = s := by
  cases s with
  | nil => rfl
  | cons c s =>
      have hc := hs c rfl
      exact List.dropWhile_cons_of_neg (by simp [hc])

theorem exists_areBlanks (s : List Char) : ∃ a, AreBlanks a ∧ s = a ++ skipBlanks s :=
  ⟨s.takeWhile isBlank, fun _ hc => List.mem_takeWhile_imp hc,
    List.takeWhile_append_dropWhile.symm⟩

/-- A character that stands between literals. -/
def isDivider (c : Char) : Bool :=
  isBlank c || c = ',' || c = '%'

theorem isDivider_of_isBlank {c : Char} (hc : isBlank c = true) : isDivider c = true := by
  rw [isDivider, hc]
  rfl

theorem isBlank_of_isDivider {c : Char} (hc : isDivider c = false) : isBlank c = false := by
  cases hblank : isBlank c with
  | false => rfl
  | true =>
      rw [isDivider_of_isBlank hblank] at hc
      exact nomatch hc

/-- Blanks in front of a part are skipped, and a part that nothing divides is not. -/
theorem AreBlanks.skipBlanks_part {front part : List Char} (hfront : AreBlanks front)
    (hsome : part ≠ []) (hpart : ∀ c ∈ part, isDivider c = false) (rest : List Char) :
    skipBlanks (front ++ (part ++ rest)) = part ++ rest := by
  rw [hfront.skipBlanks_append]
  obtain ⟨c, tail, rfl⟩ := List.exists_cons_of_ne_nil hsome
  refine skipBlanks_eq_self ?_
  rintro _ ⟨⟩
  exact isBlank_of_isDivider (hpart c List.mem_cons_self)

theorem isDivider_cases {c : Char} (hc : isDivider c = true) :
    c ∈ [' ', '\t', '\n', '\r', ',', '%'] := by
  simpa [isDivider, isBlank, or_assoc] using hc

namespace Literal

theorem stops_of_isDivider {rest : List Char} (hrest : ∀ c ∈ rest.head?, isDivider c = true) :
    Stops rest := by
  intro c hc
  have hcases := isDivider_cases (hrest c hc)
  simp only [List.mem_cons, List.not_mem_nil, or_false] at hcases
  rcases hcases with rfl | rfl | rfl | rfl | rfl | rfl <;> decide

end Literal

theorem AreDigits.isDivider {digits : List Char} (hdigits : AreDigits digits) :
    ∀ c ∈ digits, isDivider c = false := by
  intro c hc
  have hcases := Json.digit_cases (hdigits c hc)
  simp only [List.mem_cons, List.not_mem_nil, or_false] at hcases
  rcases hcases with rfl | rfl | rfl | rfl | rfl | rfl | rfl | rfl | rfl | rfl <;> rfl

namespace Numeral

theorem WritesDigits.ne_nil {whole fraction digits : List Char}
    (hdigits : WritesDigits whole fraction digits) : digits ≠ [] := by
  cases hdigits with
  | whole hwhole hsome => exact hsome
  | pointed hwhole hplaces hsome => simp

theorem IsWritten.ne_nil {n : Numeral} {s : List Char} (hs : n.IsWritten s) : s ≠ [] := by
  cases hs with
  | parts hsign hdigits hpower =>
      exact List.append_ne_nil_of_right_ne_nil _
        (List.append_ne_nil_of_left_ne_nil hdigits.ne_nil _)

theorem WritesSign.isDivider {negative : Bool} {sign : List Char}
    (hsign : WritesSign negative sign) : ∀ c ∈ sign, isDivider c = false := by
  cases hsign with
  | none => exact nofun
  | plus => simp [ChartCompiler.isDivider, isBlank]
  | minus => simp [ChartCompiler.isDivider, isBlank]

theorem WritesDigits.isDivider {whole fraction digits : List Char}
    (hdigits : WritesDigits whole fraction digits) : ∀ c ∈ digits, isDivider c = false := by
  cases hdigits with
  | whole hwhole hsome => exact hwhole.isDivider
  | pointed hwhole hplaces hsome =>
      exact List.forall_mem_append.mpr ⟨hwhole.isDivider,
        List.forall_mem_cons.mpr ⟨rfl, hplaces.isDivider⟩⟩

theorem WritesExponent.isDivider {exponent : ℤ} {power : List Char}
    (hpower : WritesExponent exponent power) : ∀ c ∈ power, isDivider c = false := by
  cases hpower with
  | none => exact nofun
  | power hletter hsign hdigits hsome =>
      refine List.forall_mem_cons.mpr ⟨?_, List.forall_mem_append.mpr
        ⟨hsign.isDivider, hdigits.isDivider⟩⟩
      rcases hletter with rfl | rfl <;> rfl

/-- Nothing divides a numeral. -/
theorem IsWritten.isDivider {n : Numeral} {s : List Char} (hs : n.IsWritten s) :
    ∀ c ∈ s, isDivider c = false := by
  cases hs with
  | parts hsign hdigits hpower =>
      exact List.forall_mem_append.mpr ⟨hsign.isDivider,
        List.forall_mem_append.mpr ⟨hdigits.isDivider, hpower.isDivider⟩⟩

end Numeral

/-- Nothing divides a word. -/
theorem isDivider_of_lowerAscii {front : List Char} {word : List Char}
    (hfront : lowerAscii front = word) (hword : ∀ c ∈ word, isDivider c = false) :
    ∀ c ∈ front, isDivider c = false := by
  intro c hc
  by_contra hdivider
  rw [Bool.not_eq_false] at hdivider
  have hlower : c.toLower = c := by
    have hcases := isDivider_cases hdivider
    simp only [List.mem_cons, List.not_mem_nil, or_false] at hcases
    rcases hcases with rfl | rfl | rfl | rfl | rfl | rfl <;> rfl
  have hmem : c ∈ word := hfront ▸ hlower ▸ List.mem_map_of_mem hc
  rw [hword c hmem] at hdivider
  exact nomatch hdivider

namespace Literal

variable {v : Float} {s : List Char}

theorem IsWritten.ne_nil (hs : IsWritten v s) : s ≠ [] := by
  cases hs with
  | numeral htext hnearest hsign => exact htext.ne_nil
  | nan htext hvalue =>
      rintro rfl
      exact nomatch htext
  | infinity htext hvalue =>
      rintro rfl
      exact nomatch htext

/-- Nothing divides a literal. -/
theorem IsWritten.isDivider (hs : IsWritten v s) : ∀ c ∈ s, isDivider c = false := by
  cases hs with
  | numeral htext hnearest hsign => exact htext.isDivider
  | nan htext hvalue =>
      exact isDivider_of_lowerAscii (htext.trans nan_eq)
        (by simp [ChartCompiler.isDivider, isBlank])
  | infinity htext hvalue =>
      exact isDivider_of_lowerAscii (htext.trans inf_eq)
        (by simp [ChartCompiler.isDivider, isBlank])

/-- Blanks in front of a literal are skipped, and the literal is not. -/
theorem IsWritten.skipBlanks_append {front : List Char} (hs : IsWritten v s)
    (hfront : AreBlanks front) (rest : List Char) :
    skipBlanks (front ++ (s ++ rest)) = s ++ rest :=
  hfront.skipBlanks_part hs.ne_nil hs.isDivider rest

end Literal

end ChartCompiler
