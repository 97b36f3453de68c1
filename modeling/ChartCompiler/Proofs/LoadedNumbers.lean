import ChartCompiler.Proofs.Dependence
import ChartCompiler.Proofs.ReadBack.Literals
import ChartCompiler.Table.Csv

/-!
# Numbers in both kinds of table

Comma-separated values try a field as an integer with a sign and then as a numeral, JSON reads
integers of 64 bits without a sign as well and rounds other numbers in its own way. A number has the
same label and the same value in both kinds of table exactly if comma-separated values keep it
(`Json.Number.IsKept`): `Table.loaded_numbers_agree`. Large identifiers are not kept, and may end up
as one category: `Table.csv_merges_identifiers`.
-/

namespace ChartCompiler

open Double

/-! ## Cells -/

namespace Csv

variable {text : List Char}

theorem cell_integer {v : ℤ} (hv : parseInt64? text = some v) :
    cell (String.ofList text) = .number (.integer v) := by
  have hsome : text.isEmpty = false := by
    cases text with
    | nil => exact nomatch hv
    | cons c text => rfl
  unfold cell
  dsimp only
  rw [String.toList_ofList, hsome, hv]
  rfl

/-- The cell of a numeral that is no integer of 64 bits. -/
theorem cell_numeral {numeral : Numeral} (hint : parseInt64? text = none)
    (hscan : Numeral.scan text = .found numeral []) :
    cell (String.ofList text) = if numeral.value.isFinite then .number (.real numeral.value)
      else .string (String.ofList text) := by
  have hsome : text.isEmpty = false := by
    cases text with
    | nil => exact nomatch hscan
    | cons c text => rfl
  unfold cell parseFloat?
  dsimp only
  rw [String.toList_ofList, hsome, hint, hscan]
  dsimp only
  rw [Option.filter_some]
  cases numeral.value.isFinite <;> rfl

section Blank

variable {b : Char} (hb : isBlank b = true) (hmem : b ∈ text)
include hb hmem

theorem mem_scanSign_of_isBlank : b ∈ (Numeral.scanSign text).2 := by
  obtain ⟨sign, hsign, hsigns⟩ := Numeral.scanSign_split text
  rw [hsign] at hmem
  rcases List.mem_append.mp hmem with hfront | hback
  · rcases hsigns b hfront with rfl | rfl <;> exact absurd hb (by decide)
  · exact hback

theorem parseInt64?_of_isBlank : parseInt64? text = none := by
  have hback := mem_scanSign_of_isBlank hb hmem
  refine Option.eq_none_iff_forall_ne_some.mpr fun v hv => ?_
  obtain ⟨hdigits, -⟩ := (parseInt64?_eq_some_iff rfl (List.ne_nil_of_mem hback)).mp hv
  exact (isTight_of_isDigit (List.dropWhile_eq_nil_iff.mp hdigits)).not_mem hb hback

theorem parseFloat?_of_isBlank : parseFloat? text = none := by
  unfold parseFloat?
  split
  · next hscan => exact absurd hmem ((Numeral.isTight_of_scan hscan).not_mem hb)
  · rfl
  · rfl
  · have hlower : b.toLower = b := by
      simp only [isBlank, Bool.or_eq_true, decide_eq_true_eq] at hb
      rcases hb with ((rfl | rfl) | rfl) | rfl <;> rfl
    have hname : b ∈ lowerAscii (Numeral.scanSign text).2 :=
      hlower ▸ List.mem_map_of_mem (mem_scanSign_of_isBlank hb hmem)
    have hother : ∀ name ∈ ["inf".toList, "infinity".toList, "nan".toList],
        lowerAscii (Numeral.scanSign text).2 ≠ name := by
      have hnames : ∀ name ∈ ["inf".toList, "infinity".toList, "nan".toList],
          name.all (fun c => !isBlank c) = true := by decide
      intro name hlisted heq
      rw [heq] at hname
      have hfree := List.all_eq_true.mp (hnames name hlisted) b hname
      rw [hb] at hfree
      cases hfree
    dsimp only
    rw [if_neg, if_neg (hother _ (by simp))]
    · rfl
    · rintro (heq | heq)
      · exact hother _ (by simp) heq
      · exact hother _ (by simp) heq

/-- A text with blanks is no number. -/
theorem cell_of_isBlank : cell (String.ofList text) = .string (String.ofList text) := by
  have hsome : text.isEmpty = false := List.isEmpty_eq_false_iff.mpr (List.ne_nil_of_mem hmem)
  unfold cell
  dsimp only
  rw [String.toList_ofList, hsome, parseInt64?_of_isBlank hb hmem, parseFloat?_of_isBlank hb hmem]
  rfl

end Blank

end Csv

/-! ## Readings -/

/-- The field has the same label and the same number in both rows. -/
structure Row.SameReadings (row other : Row) (field : String) : Prop where
  label : row.label? field = other.label? field
  number : row.number? field = other.number? field

theorem Row.sameReadings_of_get? {row other : Row} {field : String}
    (hcell : row.get? field = other.get? field) : row.SameReadings other field := by
  constructor
  · rw [Row.label?, hcell, Row.label?]
  · rw [Row.number?, hcell, Row.number?]

/-- The number is what comma-separated values make of the text as well. The text is a numeral
without blanks around it, and the number is an integer that fits 64 bits with a sign or the double
nearest to the text. `-0` is an integer there, but a double in JSON. -/
inductive Json.Number.IsKept (text : List Char) : Json.Number → Prop
  | integer {numeral : Numeral} {v : ℤ} (whole : Numeral.scan text = .found numeral [])
      (small : v < 2 ^ 63) : IsKept text (.integer v)
  | real {numeral : Numeral} {x : Float} (whole : Numeral.scan text = .found numeral [])
      (signed : text ≠ ['-', '0']) (nearest : Rounds x (numeral.number : ℚ)) : IsKept text (.real x)

theorem Json.Number.IsKept.isTight {text : List Char} {n : Json.Number} (h : n.IsKept text) :
    IsTight text := by
  cases h with
  | integer whole small => exact Numeral.isTight_of_scan whole
  | real whole signed nearest => exact Numeral.isTight_of_scan whole

/-- The field holds the same text, as comma-separated values in one row and as a JSON number in the
other. -/
structure SharesNumber (text : List Char) (n : Json.Number) (row other : Row) (field : String) :
    Prop where
  read : Json.value.readText text = .ok (.number n)
  cell : row.get? field = some (Csv.cell (String.ofList text))
  counterpart : other.get? field = some (.number n)

/-- Doubles of one sign that are the rounded result of one computation are the same. -/
theorem Double.eq_of_rounds {x y z w : Float} {r : ℝ} (hx : Rounds x r) (hy : Rounds y r)
    (hfinite : x.isFinite = true) (hz : IsUnsigned z) (hw : IsUnsigned w) {negative : Bool}
    (hxz : x = if negative then -z else z) (hyw : y = if negative then -w else w) : x = y := by
  have hyfinite := hy.isFinite (hx.abs_nearest_lt hfinite)
  have hreal : real x = real y := by
    rw [real, real, hx.value, hy.value]
  cases negative with
  | false =>
      rw [if_neg Bool.false_ne_true] at hxz hyw
      subst hxz hyw
      exact eq_of_real_eq hfinite hyfinite hz hw hreal
  | true =>
      rw [if_pos rfl] at hxz hyw
      subst hxz hyw
      rw [isFinite_neg] at hfinite hyfinite
      rw [real_neg, real_neg, neg_inj] at hreal
      rw [eq_of_real_eq hfinite hyfinite hz hw hreal]

namespace SharesNumber

variable {text : List Char} {n : Json.Number} {row other : Row} {field : String}

section Counterpart

variable (h : SharesNumber text n row other field)
include h

theorem isRead : n.IsRead := by
  obtain ⟨_, _, parts, _, _, _, hn, _⟩ := Json.exists_parts_of_readText h.read
  exact Json.NumberParts.isRead_of_number? hn

theorem label?_counterpart : other.label? field = some n.text := by
  rw [Row.label?, h.counterpart]

theorem number?_counterpart : other.number? field = some n.toFloat := by
  rw [Row.number?, h.counterpart]
  dsimp only
  rw [Option.filter_some, if_pos h.isRead.isFinite_toFloat]

theorem label?_of_isBlank {b : Char} (hb : isBlank b = true) (hmem : b ∈ text) :
    row.label? field = some (String.ofList text) := by
  rw [Row.label?, h.cell, Csv.cell_of_isBlank hb hmem]

theorem sameReadings_of_cell (hcell : Csv.cell (String.ofList text) = .number n) :
    row.SameReadings other field :=
  Row.sameReadings_of_get? (by rw [h.cell, hcell, h.counterpart])

/-- Blanks around a number are part of its label. -/
theorem not_sameReadings_of_isBlank {b : Char} (hb : isBlank b = true) (hmem : b ∈ text) :
    ¬row.SameReadings other field := by
  intro hsame
  have hlabel := hsame.label
  rw [h.label?_of_isBlank hb hmem, h.label?_counterpart] at hlabel
  have htight := n.isTight_text
  rw [← Option.some.inj hlabel, String.toList_ofList] at htight
  exact htight.not_mem hb hmem

end Counterpart

/-- The double of comma-separated values is the nearest one, so that it is the one of JSON exactly
if this is the nearest one too. -/
theorem sameReadings_real_iff {x : Float} {parts : Json.NumberParts}
    (h : SharesNumber text (.real x) row other field) (hn : parts.number? = some (.real x))
    (hscan : Numeral.scan text = .found parts.numeral []) (hint : parseInt64? text = none) :
    row.SameReadings other field ↔ Rounds x (parts.numeral.number : ℚ) := by
  have hcell := Csv.cell_numeral hint hscan
  have hrounds := parts.numeral.rounds_value
  have hfinite : x.isFinite = true := h.isRead
  constructor
  · intro hsame
    have hnumber := hsame.number
    rw [h.number?_counterpart, Row.number?, h.cell, hcell] at hnumber
    split_ifs at hnumber with hvalue
    · change (some parts.numeral.value).filter Float.isFinite = some x at hnumber
      rw [Option.filter_some, if_pos hvalue] at hnumber
      rwa [Option.some.inj hnumber] at hrounds
    · -- a text that is too large for a double stays a text, and is no number there
      have hparse : parseFloat? text = some parts.numeral.value := by
        unfold parseFloat?
        rw [hscan]
      dsimp only at hnumber
      rw [String.toList_ofList, (Numeral.isTight_of_scan hscan).trim_eq, hparse,
        Option.filter_some, if_neg hvalue] at hnumber
      exact nomatch hnumber
  · intro hx
    obtain ⟨z, hz, hxz⟩ := Json.NumberParts.of_number?_real hn
    have heq : x = parts.numeral.value :=
      eq_of_rounds hx hrounds hfinite hz parts.numeral.decimal.isUnsigned_toFloat hxz rfl
    refine h.sameReadings_of_cell ?_
    rw [hcell, ← heq, if_pos hfinite]

/-- An integer that does not fit 64 bits with a sign is a double in comma-separated values, and these
are written differently. -/
theorem not_sameReadings_natCast {m : ℕ} {numeral : Numeral}
    (h : SharesNumber text (.integer m) row other field)
    (hscan : Numeral.scan text = .found numeral []) (hint : parseInt64? text = none)
    (hnumber : numeral.number = m) : ¬row.SameReadings other field := by
  intro hsame
  have hword : m < 2 ^ 64 := by
    have hread : Json.IsWord (m : ℤ) := h.isRead
    exact_mod_cast hread.2
  have hfinite : numeral.value.isFinite = true := by
    have hrounds := numeral.rounds_value
    rw [hnumber, Rat.cast_natCast] at hrounds
    refine (hrounds.bounded (isDouble_pow 64) (pow_lt_limit (by norm_num)) ?_).1
    rw [Nat.abs_cast]
    exact_mod_cast hword.le
  have hlabel := hsame.label
  rw [h.label?_counterpart, Row.label?, h.cell, Csv.cell_numeral hint hscan, if_pos hfinite]
    at hlabel
  exact Json.Number.text_real_ne hfinite m (Option.some.inj hlabel)

section Whole

variable {s : List Char} {negative : Bool} {parts : Json.NumberParts}
  (htext : text = (if negative then ['-'] else []) ++ s)
  (hparts : Json.numberParts .cutShort negative s = .ok (parts, []))
include htext hparts

theorem sameReadings_integer_iff {v : ℤ} (h : SharesNumber text (.integer v) row other field)
    (hn : parts.number? = some (.integer v)) : row.SameReadings other field ↔ v < 2 ^ 63 := by
  obtain ⟨hdigits, hfits, hvalue, hlow⟩ := Json.digits_of_integer hparts hn
  have hscan := Json.scan_text hparts htext
  have hint := parseInt64?_eq_some_iff (Json.scanSign_text hparts htext)
    (Json.ne_nil_of_numberParts hparts) (v := v)
  rcases lt_or_ge v (2 ^ 63) with hsmall | hlarge
  · have hcell := Csv.cell_integer (hint.mpr ⟨hdigits, hvalue, hlow, hsmall⟩)
    exact iff_of_true (h.sameReadings_of_cell hcell) hsmall
  · refine iff_of_false ?_ hlarge.not_gt
    cases negative with
    | true =>
        rw [if_pos rfl] at hvalue
        omega
    | false =>
        rw [if_neg Bool.false_ne_true] at hvalue
        subst hvalue
        refine h.not_sameReadings_natCast hscan ?_ ?_
        · refine Option.eq_none_iff_forall_ne_some.mpr fun w hw => ?_
          obtain ⟨-, hsame, -, hsmall⟩ := (parseInt64?_eq_some_iff
            (Json.scanSign_text hparts htext) (Json.ne_nil_of_numberParts hparts)).mp hw
          rw [if_neg Bool.false_ne_true] at hsame
          omega
        · rw [Json.eq_of_digits hparts hdigits]
          unfold Json.NumberParts.numeral Numeral.number Numeral.decimal
          simp

theorem sameReadings_iff_of_whole (h : SharesNumber text n row other field)
    (hn : parts.number? = some n) : row.SameReadings other field ↔ n.IsKept text := by
  have hscan := Json.scan_text hparts htext
  cases n with
  | integer v =>
      rw [sameReadings_integer_iff htext hparts h hn]
      constructor
      · exact fun hsmall => .integer hscan hsmall
      · rintro (⟨-, hsmall⟩ | -)
        exact hsmall
  | real x =>
      by_cases hzero : text = ['-', '0']
      · subst hzero
        have hnot : ¬row.SameReadings other field := by
          intro hsame
          have hlabel := hsame.label
          rw [h.label?_counterpart, Row.label?, h.cell, Csv.cell_integer (v := 0) rfl] at hlabel
          exact Json.Number.text_real_ne h.isRead 0 (Option.some.inj hlabel).symm
        refine iff_of_false hnot ?_
        rintro (- | ⟨-, hsigned, -⟩)
        exact hsigned rfl
      · have hint : parseInt64? text = none := by
          refine Option.eq_none_iff_forall_ne_some.mpr fun v hv => ?_
          rcases Json.number?_of_parseInt64? hparts htext hv with hinteger | hnull
          · rw [hn] at hinteger
            exact nomatch hinteger
          · exact hzero hnull
        rw [h.sameReadings_real_iff hn hscan hint]
        constructor
        · exact fun hx => .real hscan hzero hx
        · rintro (- | ⟨hother, -, hx⟩)
          rw [hscan] at hother
          cases hother
          exact hx

end Whole

/-- A number has the same label and the same value in both kinds of table exactly if comma-separated
values keep it. -/
theorem sameReadings_iff (h : SharesNumber text n row other field) :
    row.SameReadings other field ↔ n.IsKept text := by
  obtain ⟨negative, s, parts, after, htext, hparts, hn, hafter⟩ :=
    Json.exists_parts_of_readText h.read
  by_cases hblank : ∃ b ∈ text, isBlank b = true
  · obtain ⟨b, hmem, hb⟩ := hblank
    exact iff_of_false (h.not_sameReadings_of_isBlank hb hmem) fun hkept =>
      hkept.isTight.not_mem hb hmem
  · have hkeep : ∀ s : List Char, (∀ c ∈ s, c ∈ text) → skipBlanks s = s := by
      intro s hs
      cases s with
      | nil => rfl
      | cons c s =>
          refine List.dropWhile_cons_of_neg fun hc => hblank ⟨c, hs c List.mem_cons_self, hc⟩
    rw [hkeep text fun _ hc => hc] at htext
    obtain ⟨front, hfront, -⟩ := Numeral.scan_split (Json.scan_of_numberParts hparts)
    have hnil : after = [] := by
      rw [← hafter, hkeep after fun c hc => ?_]
      rw [htext, hfront]
      exact List.mem_append_right front hc
    subst hnil
    exact sameReadings_iff_of_whole htext hparts h hn

end SharesNumber

/-! ## Numbers of few digits -/

/-- Numbers of few digits are kept. -/
theorem Json.isKept_of_short {text : List Char} {n : Number} {numeral : Numeral}
    (hread : value.readText text = .ok (.number n))
    (hscan : Numeral.scan text = .found numeral []) (hzero : text ≠ ['-', '0'])
    (hdigits : numeral.decimal.digits ≤ 2 ^ 53) (hlow : -22 ≤ numeral.decimal.exponent)
    (hhigh : numeral.decimal.exponent ≤ 22) : n.IsKept text := by
  obtain ⟨negative, s, parts, after, htext, hparts, hn, hafter⟩ := exists_parts_of_readText hread
  rw [Numeral.skipBlanks_of_scan hscan] at htext
  have hfound := scan_of_numberParts hparts
  rw [← htext, hscan] at hfound
  obtain ⟨rfl, rfl⟩ := Numeral.Scan.found.inj hfound
  cases n with
  | integer v =>
      refine .integer hscan ?_
      obtain ⟨hall, hfits, hvalue, -⟩ := digits_of_integer hparts hn
      rw [eq_of_digits hparts hall] at hdigits
      have hsmall : digitsValue (s ++ []) ≤ 2 ^ 53 := hdigits
      rw [List.append_nil] at hsmall
      split_ifs at hvalue <;> omega
  | real x => exact .real hscan hzero (parts.rounds_of_number? hn hdigits hlow hhigh)

/-! ## Tables -/

/-- Each field of the two rows has the same cell, or one number that comma-separated values keep. -/
def Row.Echoes (row other : Row) : Prop :=
  ∀ field, row.get? field = other.get? field ∨
    ∃ text n, SharesNumber text n row other field ∧ n.IsKept text

theorem Row.Echoes.sameReadings {row other : Row} (h : row.Echoes other) (field : String) :
    row.SameReadings other field := by
  rcases h field with hcell | ⟨text, n, hshares, hkept⟩
  · exact Row.sameReadings_of_get? hcell
  · exact hshares.sameReadings_iff.mpr hkept

/-- A number has the same label and the same value in a table of comma-separated values and in one
of JSON exactly if comma-separated values keep it, and numbers of few digits are kept. Tables whose
numbers are kept have the same categories and the same groups. -/
theorem Table.loaded_numbers_agree {text : List Char} {n : Json.Number} {row other : Row}
    {field : String} (h : SharesNumber text n row other field) :
    (row.SameReadings other field ↔ n.IsKept text) ∧
    (∀ {numeral : Numeral}, Numeral.scan text = .found numeral [] → text ≠ ['-', '0'] →
      numeral.decimal.digits ≤ 2 ^ 53 → -22 ≤ numeral.decimal.exponent →
      numeral.decimal.exponent ≤ 22 → n.IsKept text) ∧
    ∀ {rows others : Table}, List.Forall₂ Row.Echoes rows others → ∀ x,
      rows.distinctLabels x = others.distinctLabels x ∧
      ∀ y, rows.groupValues x y = others.groupValues x y := by
  refine ⟨h.sameReadings_iff, fun hscan hzero hdigits hlow hhigh => ?_,
    fun hrows x => ⟨?_, fun y => ?_⟩⟩
  · exact Json.isKept_of_short h.read hscan hzero hdigits hlow hhigh
  · exact distinctLabels_eq_of_forall₂ (hrows.imp fun _ _ hrow => (hrow.sameReadings x).label)
  · exact groupValues_eq_of_forall₂ (hrows.imp fun _ _ hrow =>
      ⟨(hrow.sameReadings x).label, (hrow.sameReadings y).number⟩)

def Csv.priceRow : Row :=
  Csv.row ["price"] ["-3.25e1"]

def Json.priceRow : Row :=
  [("price", .number (.real (-32.5)))]

theorem Table.loaded_numbers_agree_price :
    SharesNumber "-3.25e1".toList (.real (-32.5)) Csv.priceRow Json.priceRow "price" ∧
    Csv.priceRow.SameReadings Json.priceRow "price" ∧
    distinctLabels [Csv.priceRow] "price" = distinctLabels [Json.priceRow] "price" := by
  have hshares : SharesNumber "-3.25e1".toList (.real (-32.5)) Csv.priceRow Json.priceRow
      "price" := ⟨rfl, rfl, rfl⟩
  obtain ⟨hiff, hshort, htables⟩ := loaded_numbers_agree hshares
  have hkept : (Json.Number.real (-32.5)).IsKept "-3.25e1".toList :=
    hshort rfl (by decide) (by decide) (by decide) (by decide)
  refine ⟨hshares, hiff.mpr hkept, (htables (.cons ?_ .nil) "price").1⟩
  intro field
  by_cases hfield : field = "price"
  · subst hfield
    exact .inr ⟨_, _, hshares, hkept⟩
  · left
    have hmissing : ∀ v, Json.Members.get? field [("price", v)] = none := fun v => by
      rw [Json.Members.get?, if_neg (Ne.symm hfield)]
      rfl
    exact (hmissing _).trans (hmissing _).symm

/-- Two identifiers that JSON keeps apart are one category in comma-separated values: above the
integers with a sign they are read as the same double. -/
theorem Table.csv_merges_identifiers :
    Json.value.readText "9223372036854775808".toList =
      .ok (.number (.integer 9223372036854775808)) ∧
    Row.label? [("id", Csv.cell "9223372036854775808")] "id" ≠
      Row.label? [("id", .number (.integer 9223372036854775808))] "id" ∧
    (ofCsv? "id\n9223372036854775808\n9223372036854775809\n".toUTF8.toList).toOption.map
        (fun rows => rows.distinctLabels "id") = some ["9.223372036854776e+18"] ∧
    ((Json.value.readText ("[\x7b\"id\": 9223372036854775808\x7d, " ++
        "\x7b\"id\": 9223372036854775809\x7d]").toList).toOption.bind fun v =>
          (ofJson? v).toOption.map fun rows => rows.distinctLabels "id") =
      some ["9223372036854775808", "9223372036854775809"] := by
  refine ⟨rfl, ?_, ?_, ?_⟩ <;> decide +kernel

end ChartCompiler
