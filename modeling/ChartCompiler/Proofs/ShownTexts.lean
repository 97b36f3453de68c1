import ChartCompiler.Proofs.Percentages

/-!
# Texts of rounded numbers

A double with decimal places, rounded and then without its trailing zeros, is a canonical
text: more places than needed change nothing, and so two such texts are equal if and only if
they show the same number with the same sign, whatever the places they were rounded to.
Doubles that are not finite have three texts of their own.
-/

namespace ChartCompiler.Decimal

open Double

/-! ## More places -/

@[simp]
theorem length_zeros (n : ℕ) : (zeros n).length = n :=
  List.length_replicate

theorem repr_mul_pow {n : ℕ} (hn : 0 < n) (k : ℕ) :
    (Nat.repr (n * 10 ^ k)).toList = (Nat.repr n).toList ++ zeros k := by
  rw [Nat.toList_repr, Nat.toList_repr]
  induction k with
  | zero => rw [pow_zero, mul_one, zeros, List.replicate_zero, List.append_nil]
  | succ k ih =>
      have hpos : 0 < n * 10 ^ k := Nat.mul_pos hn (Nat.pow_pos (by norm_num))
      have hdigits := Nat.toDigits_append_toDigits (b := 10) (d := 0) (by norm_num) hpos
        (by norm_num)
      have hnext : n * 10 ^ (k + 1) = 10 * (n * 10 ^ k) + 0 := by ring
      rw [hnext, ← hdigits, ih, List.append_assoc]
      exact congrArg _ List.replicate_succ'.symm

/-- Digits with zeros in front of them where there are fewer digits than places. -/
def padded (n places : ℕ) : List Char :=
  zeros (places + 1 - (Nat.repr n).toList.length) ++ (Nat.repr n).toList

theorem placed_eq_padded (n : ℕ) {places : ℕ} (hplaces : 0 < places) :
    placed n places = (padded n places).take ((padded n places).length - places) ++
      '.' :: (padded n places).drop ((padded n places).length - places) := by
  unfold placed padded
  rw [if_neg hplaces.ne']

theorem padded_mul_pow (n places k : ℕ) :
    padded (n * 10 ^ k) (places + k) = padded n places ++ zeros k := by
  unfold padded
  rcases Nat.eq_zero_or_pos n with rfl | hn
  · have hzero : (Nat.repr 0).toList = zeros 1 := rfl
    rw [zero_mul, hzero]
    simp only [zeros, List.length_replicate, List.replicate_append_replicate]
    congr 1
    omega
  · rw [repr_mul_pow hn, List.length_append, length_zeros, ← List.append_assoc]
    congr 3
    omega

theorem le_length_padded (n places : ℕ) : places ≤ (padded n places).length := by
  unfold padded
  rw [List.length_append, length_zeros]
  omega

/-- Further places only add zeros. -/
theorem placed_mul_pow (n : ℕ) {places : ℕ} (hplaces : 0 < places) (k : ℕ) :
    placed (n * 10 ^ k) (places + k) = placed n places ++ zeros k := by
  have hlength := le_length_padded n places
  have hwhole : (padded n places ++ zeros k).length - (places + k) =
      (padded n places).length - places := by
    rw [List.length_append, length_zeros]
    omega
  rw [placed_eq_padded _ (by omega), placed_eq_padded n hplaces, padded_mul_pow, hwhole,
    List.take_append_of_le_length (by omega), List.drop_append_of_le_length (by omega)]
  simp

/-! ## Canonical texts -/

/-- Zeros at the end of the places are trimmed, however many. -/
theorem trimPlaces_append_zeros (sign : List Char) (n : ℕ) {places : ℕ} (hplaces : 0 < places)
    (k : ℕ) :
    trimPlaces (String.ofList (sign ++ (placed n places ++ zeros k))) =
      trimPlaces (String.ofList (sign ++ placed n places)) := by
  obtain ⟨whole, fraction, hplaced, -, -, hdigits, -⟩ := placed_eq n hplaces
  have hfraction : ∀ c ∈ fraction, c.isDigit = true :=
    fun c hc => hdigits c (List.mem_append_right _ hc)
  have hmore : ∀ c ∈ fraction ++ zeros k, c.isDigit = true := by
    intro c hc
    rcases List.mem_append.mp hc with hc | hc
    · exact hfraction c hc
    · rw [List.eq_of_mem_replicate hc]
      rfl
  have hzeros : (fraction ++ zeros k).rdropWhile (· = '0') = fraction.rdropWhile (· = '0') := by
    rw [List.rdropWhile, List.reverse_append, zeros, List.reverse_replicate,
      List.dropWhile_append, List.dropWhile_replicate]
    simp [List.rdropWhile]
  have htext := trimPlaces_eq (sign ++ whole) hfraction
  have hlong := trimPlaces_eq (sign ++ whole) hmore
  rw [hzeros, ← htext] at hlong
  rw [hplaced]
  simpa using hlong

theorem trimPlaces_placed_eq (sign : List Char) {n m p q : ℕ} (hp : 0 < p) (hpq : p ≤ q)
    (heq : n * 10 ^ q = m * 10 ^ p) :
    trimPlaces (String.ofList (sign ++ placed n p)) =
      trimPlaces (String.ofList (sign ++ placed m q)) := by
  obtain ⟨k, rfl⟩ := Nat.exists_eq_add_of_le hpq
  have hm : m = n * 10 ^ k := by
    rw [pow_add, mul_comm (10 ^ p), ← mul_assoc] at heq
    exact (Nat.eq_of_mul_eq_mul_right (Nat.pow_pos (by norm_num)) heq).symm
  rw [hm, placed_mul_pow n hp, trimPlaces_append_zeros sign n hp]

/-! ## Equal texts -/

/-- Two doubles are written alike, each with its own number of places: they are finite and show one
number with one sign, or they are both NaN or the same infinity. -/
inductive ShownAlike (p q : ℕ) (x y : Float) : Prop
  | finite (hx : x.isFinite = true) (hy : y.isFinite = true) (hsign : isSigned x = isSigned y)
      (hnumber : shown p x = shown q y)
  | infinite (hx : ¬x.isFinite = true) (hy : ¬y.isFinite = true) (hnumber : x.isNaN = y.isNaN)
      (hside : x < 0 ↔ y < 0)

variable {p q : ℕ} (hp : 0 < p) (hq : 0 < q) {x y : Float}

section Finite

variable (hx : x.isFinite = true) (hy : y.isFinite = true)
include hp hq hx hy

theorem trimPlaces_fixed_inj (heq : trimPlaces (fixed p x) = trimPlaces (fixed q y)) :
    isSigned x = isSigned y ∧ shown p x = shown q y := by
  obtain ⟨a, hxscan, hxsign, hxnumber⟩ := scan_trimPlaces hp hx
  obtain ⟨b, hyscan, hysign, hynumber⟩ := scan_trimPlaces hq hy
  rw [heq, hyscan] at hxscan
  obtain ⟨rfl, -⟩ := Numeral.Scan.found.inj hxscan
  exact ⟨hxsign.symm.trans hysign, hxnumber.symm.trans hynumber⟩

theorem trimPlaces_fixed_eq (hsign : isSigned x = isSigned y) (hnumber : shown p x = shown q y) :
    trimPlaces (fixed p x) = trimPlaces (fixed q y) := by
  obtain ⟨n, hxtext, hxround⟩ := fixed_of_isFinite p hx
  obtain ⟨m, hytext, hyround⟩ := fixed_of_isFinite q hy
  have hscaled : n * 10 ^ q = m * 10 ^ p := by
    rw [shown, shown, ← hxround, ← hyround, hsign,
      div_eq_div_iff (by positivity) (by positivity)] at hnumber
    cases hy' : isSigned y with
    | true =>
        rw [hy', if_pos rfl, if_pos rfl, Int.cast_neg, Int.cast_neg, neg_mul, neg_mul] at hnumber
        exact_mod_cast neg_inj.mp hnumber
    | false =>
        rw [hy', if_neg Bool.false_ne_true, if_neg Bool.false_ne_true] at hnumber
        exact_mod_cast hnumber
  have hchars : ∀ digits : List Char, (if isSigned y then '-' :: digits else digits) =
      (if isSigned y then ['-'] else []) ++ digits := by
    intro digits
    cases isSigned y <;> rfl
  rw [hxtext, hytext, hsign, hchars (placed n p), hchars (placed m q)]
  rcases le_total p q with hpq | hqp
  · exact trimPlaces_placed_eq _ hp hpq hscaled
  · exact (trimPlaces_placed_eq _ hq hqp hscaled.symm).symm

end Finite

theorem trimPlaces_fixed_of_not_isFinite (places : ℕ) (hx : ¬x.isFinite = true) :
    trimPlaces (fixed places x) = if x.isNaN then "NaN" else if x < 0 then "-inf" else "inf" := by
  unfold fixed
  rw [Dyadic.ofFloat?_of_not_isFinite hx]
  dsimp only
  split_ifs <;> rfl

/-- A numeral is none of the texts of other doubles. -/
theorem trimPlaces_fixed_ne {p q : ℕ} (hp : 0 < p) (hx : x.isFinite = true)
    (hy : ¬y.isFinite = true) : trimPlaces (fixed p x) ≠ trimPlaces (fixed q y) := by
  intro heq
  obtain ⟨numeral, hscan, -⟩ := scan_trimPlaces hp hx
  rw [heq, trimPlaces_fixed_of_not_isFinite q hy] at hscan
  split_ifs at hscan <;> exact nomatch hscan

theorem trimPlaces_fixed_eq_iff (hp : 0 < p) (hq : 0 < q) :
    trimPlaces (fixed p x) = trimPlaces (fixed q y) ↔ ShownAlike p q x y := by
  constructor
  · intro heq
    by_cases hx : x.isFinite = true
    · by_cases hy : y.isFinite = true
      · obtain ⟨hsign, hnumber⟩ := trimPlaces_fixed_inj hp hq hx hy heq
        exact .finite hx hy hsign hnumber
      · exact absurd heq (trimPlaces_fixed_ne hp hx hy)
    · by_cases hy : y.isFinite = true
      · exact absurd heq.symm (trimPlaces_fixed_ne hq hy hx)
      · rw [trimPlaces_fixed_of_not_isFinite p hx, trimPlaces_fixed_of_not_isFinite q hy] at heq
        have hnan : ∀ z : Float, z.isNaN = true → ¬z < 0 := by
          intro z hz hneg
          rw [((lt_iff z 0).mp hneg).1] at hz
          exact nomatch hz
        have hxside := hnan x
        have hyside := hnan y
        refine .infinite hx hy ?_ ?_
        · split_ifs at heq <;> simp_all
        · split_ifs at heq <;> simp_all
  · rintro (⟨hx, hy, hsign, hnumber⟩ | ⟨hx, hy, hnumber, hside⟩)
    · exact trimPlaces_fixed_eq hp hq hx hy hsign hnumber
    · rw [trimPlaces_fixed_of_not_isFinite p hx, trimPlaces_fixed_of_not_isFinite q hy, hnumber]
      simp only [hside]

end ChartCompiler.Decimal
