import ChartCompiler.Proofs.ReadBack.Numerals

/-!
# Texts of numbers

No white space stands inside a numeral or inside the text that is written for a number, and whole
doubles are told from integers by a point or an exponent.
-/

namespace ChartCompiler

/-! ## Texts without white space -/

/-- There is no white space in the text. -/
def IsTight (text : List Char) : Prop :=
  ∀ c ∈ text, isWhiteSpace c = false

theorem isTight_append {s t : List Char} : IsTight (s ++ t) ↔ IsTight s ∧ IsTight t :=
  List.forall_mem_append

theorem isTight_cons {c : Char} {s : List Char} :
    IsTight (c :: s) ↔ isWhiteSpace c = false ∧ IsTight s :=
  List.forall_mem_cons

theorem isTight_of_isDigit {s : List Char} (hs : ∀ c ∈ s, c.isDigit = true) : IsTight s := by
  intro c hc
  have hcases := Json.digit_cases (hs c hc)
  simp only [List.mem_cons, List.not_mem_nil, or_false] at hcases
  rcases hcases with rfl | rfl | rfl | rfl | rfl | rfl | rfl | rfl | rfl | rfl <;> rfl

theorem isTight_takeWhile (s : List Char) : IsTight (s.takeWhile Char.isDigit) :=
  isTight_of_isDigit fun _ hc => List.mem_takeWhile_imp hc

theorem IsTight.trim_eq {s : List Char} (hs : IsTight s) : trim s = s := by
  have hkeep : ∀ t : List Char, IsTight t → t.dropWhile isWhiteSpace = t := by
    intro t ht
    cases t with
    | nil => rfl
    | cons c t => exact List.dropWhile_cons_of_neg (by simp [ht c List.mem_cons_self])
  unfold trim
  rw [hkeep s hs, hkeep s.reverse fun c hc => hs c (List.mem_reverse.mp hc), List.reverse_reverse]

theorem IsTight.not_mem {s : List Char} (hs : IsTight s) {c : Char} (hc : isBlank c = true) :
    c ∉ s := by
  intro hmem
  have hspace := hs c hmem
  simp only [isBlank, Bool.or_eq_true, decide_eq_true_eq] at hc
  rcases hc with ((rfl | rfl) | rfl) | rfl <;> cases hspace

namespace Numeral

theorem scanSign_split (s : List Char) : ∃ sign, s = sign ++ (scanSign s).2 ∧
    ∀ c ∈ sign, c = '-' ∨ c = '+' := by
  unfold scanSign
  split
  · exact ⟨['-'], rfl, by simp⟩
  · exact ⟨['+'], rfl, by simp⟩
  · exact ⟨[], rfl, nofun⟩

theorem scanDigits?_split {s whole fraction rest : List Char}
    (hscan : scanDigits? s = some (whole, fraction, rest)) :
    ∃ front, s = front ++ rest ∧ IsTight front := by
  have hsplit := List.takeWhile_append_dropWhile (p := Char.isDigit) (l := s)
  unfold scanDigits? at hscan
  split at hscan
  · next after hafter =>
      dsimp only at hscan
      split_ifs at hscan
      cases hscan
      refine ⟨s.takeWhile Char.isDigit ++ '.' :: after.takeWhile Char.isDigit, ?_, ?_⟩
      · conv_lhs => rw [← hsplit, hafter]
        rw [List.append_assoc, List.cons_append, List.takeWhile_append_dropWhile]
      · exact isTight_append.mpr ⟨isTight_takeWhile s,
          isTight_cons.mpr ⟨rfl, isTight_takeWhile after⟩⟩
  · dsimp only at hscan
    split_ifs at hscan
    cases hscan
    exact ⟨_, hsplit.symm, isTight_takeWhile s⟩

theorem scanExponent?_split {s rest : List Char} {exponent : ℤ}
    (hscan : scanExponent? s = some (exponent, rest)) :
    ∃ front, s = front ++ rest ∧ IsTight front := by
  cases s with
  | nil =>
      cases hscan
      exact ⟨[], rfl, nofun⟩
  | cons c s =>
      rw [scanExponent?] at hscan
      by_cases hletter : c = 'e' ∨ c = 'E'
      · rw [if_pos hletter] at hscan
        dsimp only at hscan
        split_ifs at hscan
        all_goals
          obtain ⟨sign, hsign, htight⟩ := scanSign_split s
          cases hscan
          refine ⟨c :: (sign ++ (scanSign s).2.takeWhile Char.isDigit), ?_, ?_⟩
          · rw [List.cons_append, List.append_assoc, List.takeWhile_append_dropWhile, ← hsign]
          · refine isTight_cons.mpr ⟨?_, isTight_append.mpr ⟨?_, isTight_takeWhile _⟩⟩
            · rcases hletter with rfl | rfl <;> rfl
            · intro d hd
              rcases htight d hd with rfl | rfl <;> rfl
      · rw [if_neg hletter] at hscan
        cases hscan
        exact ⟨[], rfl, nofun⟩

/-- No white space stands inside a numeral. -/
theorem scan_split {s rest : List Char} {numeral : Numeral}
    (hscan : scan s = .found numeral rest) : ∃ front, s = front ++ rest ∧ IsTight front := by
  unfold scan at hscan
  dsimp only at hscan
  split at hscan
  · exact nomatch hscan
  · next whole fraction afterDigits hdigits =>
      split at hscan
      · exact nomatch hscan
      · next exponent after hexponent =>
          cases hscan
          obtain ⟨sign, hsign, hsignTight⟩ := scanSign_split s
          obtain ⟨digits, hdigits, hdigitsTight⟩ := scanDigits?_split hdigits
          obtain ⟨power, hpower, hpowerTight⟩ := scanExponent?_split hexponent
          refine ⟨sign ++ (digits ++ power), ?_, ?_⟩
          · rw [List.append_assoc, List.append_assoc, ← hpower, ← hdigits, ← hsign]
          · refine isTight_append.mpr ⟨?_, isTight_append.mpr ⟨hdigitsTight, hpowerTight⟩⟩
            intro c hc
            rcases hsignTight c hc with rfl | rfl <;> rfl

theorem isTight_of_scan {s : List Char} {numeral : Numeral}
    (hscan : scan s = .found numeral []) : IsTight s := by
  obtain ⟨front, hfront, htight⟩ := scan_split hscan
  rwa [hfront, List.append_nil]

end Numeral

/-! ## Texts of numbers -/

namespace Decimal

theorem isDigit_repr (n : ℕ) : ∀ c ∈ (Nat.repr n).toList, c.isDigit = true := by
  intro c hc
  rw [Json.toList_repr] at hc
  exact Nat.isDigit_of_mem_toDigits (by norm_num) le_rfl hc

theorem isTight_repr (n : ℕ) : IsTight (Nat.repr n).toList :=
  isTight_of_isDigit (isDigit_repr n)

theorem isTight_zeros (n : ℕ) : IsTight (zeros n) := by
  intro c hc
  rw [List.eq_of_mem_replicate hc]
  rfl

theorem isTight_positional (pointZero : Bool) {digits : List Char} (hdigits : IsTight digits)
    (exponent : ℤ) : IsTight (positional pointZero digits exponent) := by
  have hpoint : isWhiteSpace '.' = false := rfl
  unfold positional
  dsimp only
  split_ifs
  · exact isTight_append.mpr ⟨isTight_append.mpr ⟨hdigits, isTight_zeros _⟩,
      isTight_cons.mpr ⟨hpoint, isTight_zeros 1⟩⟩
  · exact isTight_append.mpr ⟨isTight_append.mpr ⟨hdigits, isTight_zeros _⟩, nofun⟩
  · exact isTight_append.mpr ⟨fun c hc => hdigits c (List.mem_of_mem_take hc),
      isTight_cons.mpr ⟨hpoint, fun c hc => hdigits c (List.mem_of_mem_drop hc)⟩⟩
  · exact isTight_cons.mpr ⟨rfl, isTight_cons.mpr ⟨hpoint,
      isTight_append.mpr ⟨isTight_zeros _, hdigits⟩⟩⟩

theorem isTight_scientific {digits : List Char} (hdigits : IsTight digits) (exponent : ℤ) :
    IsTight (scientific digits exponent) := by
  unfold scientific
  dsimp only
  refine isTight_append.mpr ⟨?_, isTight_cons.mpr ⟨rfl, isTight_cons.mpr ⟨?_, isTight_repr _⟩⟩⟩
  · split
    · obtain ⟨hfirst, hrest⟩ := isTight_cons.mp hdigits
      exact isTight_cons.mpr ⟨hfirst, isTight_cons.mpr ⟨rfl, hrest⟩⟩
    · exact hdigits
  · split <;> rfl

theorem isTight_magnitude (layout : Layout) (d : Decimal) : IsTight (layout.magnitude d) := by
  have hdigits := isTight_repr d.digits
  unfold Layout.magnitude
  dsimp only
  split_ifs
  · exact isTight_positional _ hdigits _
  · exact isTight_scientific hdigits _

/-- Whole doubles are told from integers by a point or an exponent. -/
theorem exists_mem_magnitude (d : Decimal) :
    ∃ c ∈ Json.numberLayout.magnitude d, c.isDigit = false := by
  unfold Layout.magnitude
  dsimp only
  split_ifs
  · refine ⟨'.', ?_, rfl⟩
    unfold positional
    dsimp only
    split_ifs
    · simp
    · exact absurd rfl ‹¬Json.numberLayout.pointZero = true›
    · simp
    · simp
  · refine ⟨'e', ?_, rfl⟩
    unfold scientific
    simp

end Decimal

namespace Json.Number

theorem isTight_text (n : Number) : IsTight n.text.toList := by
  cases n with
  | integer n =>
      obtain ⟨m, rfl | rfl⟩ := n.eq_nat_or_neg
      · exact Decimal.isTight_repr m
      · cases m with
        | zero => exact Decimal.isTight_repr 0
        | succ m =>
            rw [text_neg]
            exact isTight_cons.mpr ⟨rfl, Decimal.isTight_repr _⟩
  | real x =>
      rw [text, Decimal.Layout.write]
      split
      · rw [String.toList_ofList]
        split_ifs
        · exact isTight_cons.mpr ⟨rfl, Decimal.isTight_magnitude _ _⟩
        · exact Decimal.isTight_magnitude _ _
      · have hnull : (if x.isNaN then numberLayout.nan
            else if x < 0 then numberLayout.negativeInfinite else numberLayout.infinite) =
            "null" := by
          split_ifs <;> rfl
        have hchars : "null".toList = ['n', 'u', 'l', 'l'] := rfl
        rw [hnull, hchars]
        exact isTight_cons.mpr ⟨rfl, isTight_cons.mpr ⟨rfl, isTight_cons.mpr ⟨rfl,
          isTight_cons.mpr ⟨rfl, List.forall_mem_nil _⟩⟩⟩⟩

/-- The text of a finite double is not that of a natural number. -/
theorem text_real_ne {x : Float} (hx : x.isFinite = true) (n : ℕ) :
    (real x).text ≠ (integer n).text := by
  intro heq
  obtain ⟨d, hd, -⟩ := Dyadic.ofFloat?_of_isFinite hx
  obtain ⟨c, hc, hother⟩ := Decimal.exists_mem_magnitude
    (.shortest numberLayout.tie d.significand d.exponent)
  have hmem : c ∈ (real x).text.toList := by
    rw [text, Decimal.Layout.write, hd, String.toList_ofList]
    split_ifs
    · exact List.mem_cons_of_mem _ hc
    · exact hc
  rw [heq, text_natCast] at hmem
  exact absurd (Decimal.isDigit_repr n c hmem) (by simp [hother])

end Json.Number

end ChartCompiler
