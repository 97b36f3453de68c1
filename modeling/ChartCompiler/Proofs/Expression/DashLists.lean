import ChartCompiler.Expression.Dash
import ChartCompiler.Proofs.Expression.Literals

/-!
# Texts that are dash patterns

The grammar of dash styles, and that a text is understood exactly as it says. The scanner leaves a
separator that no number follows, so a text is a list only if every separator in it has a number on
either side: `Dash.Lists.after_comma`.
-/

namespace ChartCompiler

namespace Dash

def styles : List (String × List Float) :=
  [("dashed", [6, 4]), ("dash", [6, 4]), ("dotted", [2, 3]), ("dot", [2, 3]),
    ("dashdot", [6, 3, 2, 3])]

/-- A text that names a style in any case. -/
def Names (pattern : List Float) (s : List Char) : Prop :=
  ∃ name, (name, pattern) ∈ styles ∧ lowerAscii s = name.toList

/-- What stands between two numbers: a comma that may have blanks around it, or blanks only. -/
inductive IsSeparator : List Char → Prop
  | comma {front back : List Char} (before : AreBlanks front) (after : AreBlanks back) :
      IsSeparator (front ++ ',' :: back)
  | blanks {blanks : List Char} (only : AreBlanks blanks) (some : blanks ≠ []) :
      IsSeparator blanks

/-- A text that goes on with numbers, each behind a separator. -/
inductive Continues : List Float → List Char → Prop
  | nil : Continues [] []
  | cons {v : Float} {values : List Float} {between number rest : List Char}
      (apart : IsSeparator between) (literal : Literal.IsWritten v number)
      (more : Continues values rest) : Continues (v :: values) (between ++ (number ++ rest))

/-- A text that is a list of numbers, at least one, with separators between them. -/
inductive Lists : List Float → List Char → Prop
  | list {v : Float} {values : List Float} {number rest : List Char}
      (literal : Literal.IsWritten v number) (more : Continues values rest) :
      Lists (v :: values) (number ++ rest)

/-- A comma without a number on either side of it. -/
inductive Dangles : List Char → Prop
  | leading (back : List Char) : Dangles (',' :: back)
  | trailing (front : List Char) : Dangles (front ++ [','])
  | doubled {between : List Char} (front back : List Char) (blanks : AreBlanks between) :
      Dangles (front ++ ',' :: (between ++ ',' :: back))

/-! ## Names -/

variable {pattern : List Float} {s : List Char}

theorem named?_eq_some_iff {text : List Char} :
    named? text = some pattern ↔ Names pattern (trim text) := by
  unfold named? Names
  dsimp only
  constructor
  · intro hnamed
    split_ifs at hnamed with hdashed hdotted hdashdot
    · cases hnamed
      rcases hdashed with hname | hname
      · exact ⟨"dashed", by simp [styles], hname⟩
      · exact ⟨"dash", by simp [styles], hname⟩
    · cases hnamed
      rcases hdotted with hname | hname
      · exact ⟨"dotted", by simp [styles], hname⟩
      · exact ⟨"dot", by simp [styles], hname⟩
    · cases hnamed
      exact ⟨"dashdot", by simp [styles], hdashdot⟩
  · rintro ⟨name, hstyle, hname⟩
    simp only [styles, List.mem_cons, Prod.mk.injEq, List.not_mem_nil, or_false] at hstyle
    rw [hname]
    rcases hstyle with ⟨rfl, rfl⟩ | ⟨rfl, rfl⟩ | ⟨rfl, rfl⟩ | ⟨rfl, rfl⟩ | ⟨rfl, rfl⟩ <;> simp

/-- No name has a comma in it. -/
theorem Names.isDivider (hs : Names pattern s) : ∀ c ∈ s, isDivider c = false := by
  obtain ⟨name, hname, hlower⟩ := hs
  refine isDivider_of_lowerAscii hlower ?_
  simp only [styles, List.mem_cons, Prod.mk.injEq, List.not_mem_nil, or_false] at hname
  rcases hname with ⟨rfl, -⟩ | ⟨rfl, -⟩ | ⟨rfl, -⟩ | ⟨rfl, -⟩ | ⟨rfl, -⟩ <;>
    simp [ChartCompiler.isDivider, isBlank]

/-! ## Separators -/

/-- Every separator begins with a divider. -/
theorem IsSeparator.head {between : List Char} (hbetween : IsSeparator between)
    (rest : List Char) : ∀ c ∈ (between ++ rest).head?, isDivider c = true := by
  cases hbetween with
  | @comma front back hfront hback =>
      cases front with
      | nil =>
          rintro _ ⟨⟩
          rfl
      | cons b front =>
          rintro _ ⟨⟩
          exact isDivider_of_isBlank (hfront b List.mem_cons_self)
  | blanks honly hsome =>
      obtain ⟨b, tail, rfl⟩ := List.exists_cons_of_ne_nil hsome
      rintro _ ⟨⟩
      exact isDivider_of_isBlank (honly b List.mem_cons_self)

theorem IsSeparator.ne_nil {between : List Char} (hbetween : IsSeparator between) :
    between ≠ [] := by
  cases hbetween with
  | comma hfront hback => simp
  | blanks honly hsome => exact hsome

theorem afterSeparator?_comma {rest : List Char} (hskip : skipBlanks s = ',' :: rest) :
    afterSeparator? s = some (skipBlanks rest) := by
  unfold afterSeparator?
  rw [hskip]
  cases s <;> rfl

/-- Blanks only, since no comma comes behind them. -/
theorem afterSeparator?_blanks {b : Char} (hb : isBlank b = true)
    (hskip : ∀ rest, skipBlanks (b :: s) ≠ ',' :: rest) :
    afterSeparator? (b :: s) = some (skipBlanks (b :: s)) := by
  unfold afterSeparator?
  split
  · next rest heq => exact absurd heq (hskip rest)
  · next hcons _ =>
      rw [(List.cons.inj hcons).1] at hb
      rw [if_pos hb]
  · next hnil _ => exact nomatch hnil

theorem IsSeparator.afterSeparator?_append {v : Float} {between number : List Char}
    (hbetween : IsSeparator between) (hnumber : Literal.IsWritten v number) (rest : List Char) :
    afterSeparator? (between ++ (number ++ rest)) = some (number ++ rest) := by
  cases hbetween with
  | @comma front back hfront hback =>
      have hskip : skipBlanks (front ++ ',' :: back ++ (number ++ rest)) =
          ',' :: (back ++ (number ++ rest)) := by
        rw [List.append_assoc, hfront.skipBlanks_append]
        rfl
      rw [afterSeparator?_comma hskip, hnumber.skipBlanks_append hback]
  | blanks honly hsome =>
      have hskip := hnumber.skipBlanks_append honly rest
      obtain ⟨b, blanks, rfl⟩ := List.exists_cons_of_ne_nil hsome
      rw [List.cons_append] at hskip ⊢
      rw [afterSeparator?_blanks (honly b List.mem_cons_self), hskip]
      intro after hcomma
      rw [hskip] at hcomma
      obtain ⟨c, digits, rfl⟩ := List.exists_cons_of_ne_nil hnumber.ne_nil
      have hc := hnumber.isDivider c List.mem_cons_self
      rw [(List.cons.inj hcomma).1] at hc
      exact nomatch hc

theorem exists_isSeparator {next : List Char} (hnext : afterSeparator? s = some next) :
    ∃ between, IsSeparator between ∧ s = between ++ next := by
  unfold afterSeparator? at hnext
  split at hnext
  · next text _ _ rest hskip =>
      cases hnext
      obtain ⟨front, hfront, hsplit⟩ := exists_areBlanks text
      obtain ⟨back, hback, hrest⟩ := exists_areBlanks rest
      refine ⟨_, .comma hfront hback, ?_⟩
      rw [List.append_assoc, List.cons_append, ← hrest, ← hskip, ← hsplit]
  · next c tail _ =>
      split_ifs at hnext with hblank
      cases hnext
      obtain ⟨blanks, hblanks, hsplit⟩ := exists_areBlanks tail
      refine ⟨c :: blanks, .blanks (List.forall_mem_cons.mpr ⟨hblank, hblanks⟩)
        (List.cons_ne_nil c blanks), ?_⟩
      have hskip : skipBlanks (c :: tail) = skipBlanks tail := List.dropWhile_cons_of_pos hblank
      rw [hskip, List.cons_append, ← hsplit]
  · exact nomatch hnext

/-! ## Lists -/

variable {values : List Float}

/-- No literal goes on behind the one before a separator. -/
theorem Continues.stops (hs : Continues values s) : Literal.Stops s := by
  cases hs with
  | nil => exact nofun
  | cons hbetween hnumber hmore => exact Literal.stops_of_isDivider (hbetween.head _)

theorem Continues.scanMore?_eq {bound : List Char} (hs : Continues values s)
    (hbound : s.length ≤ bound.length) : scanMore? bound s = some (values, []) := by
  -- Each number has a separator of its own, so the text shrinks as fast as the bound.
  induction hs generalizing bound with
  | nil =>
      cases bound with
      | nil => rfl
      | cons _ bound => rfl
  | @cons v values between number rest hbetween hnumber hmore ih =>
      cases bound with
      | nil =>
          have hempty := List.length_eq_zero_iff.mp (Nat.le_zero.mp hbound)
          exact absurd (List.append_eq_nil_iff.mp hempty).1 hbetween.ne_nil
      | cons b bound =>
          have hsome := List.length_pos_iff.mpr hbetween.ne_nil
          have hrest : rest.length ≤ bound.length := by
            simp only [List.length_append, List.length_cons] at hbound
            omega
          rw [scanMore?, hbetween.afterSeparator?_append hnumber]
          dsimp only
          rw [hnumber.scan_append hmore.stops]
          dsimp only
          rw [ih hrest, Option.map_some]

theorem exists_continues {bound rest : List Char}
    (hscan : scanMore? bound s = some (values, rest)) :
    ∃ front, Continues values front ∧ s = front ++ rest := by
  induction bound generalizing s values with
  | nil =>
      cases hscan
      exact ⟨[], .nil, rfl⟩
  | cons b bound ih =>
      rw [scanMore?] at hscan
      split at hscan
      · cases hscan
        exact ⟨[], .nil, rfl⟩
      · next next hnext =>
          split at hscan
          · cases hscan
            exact ⟨[], .nil, rfl⟩
          · exact nomatch hscan
          · next v after hfound =>
              obtain ⟨⟨more, left⟩, hmore, hpair⟩ := Option.map_eq_some_iff.mp hscan
              cases hpair
              obtain ⟨between, hbetween, hsplit⟩ := exists_isSeparator hnext
              obtain ⟨number, hnumber, hafter⟩ := Literal.exists_of_scan hfound
              obtain ⟨front, hfront, hrest⟩ := ih hmore
              refine ⟨_, .cons hbetween hnumber hfront, ?_⟩
              rw [List.append_assoc, List.append_assoc, ← hrest, ← hafter, ← hsplit]

theorem parse?_eq_some_iff {text : List Char} :
    parse? text = some values ↔ Lists values (trim text) := by
  constructor
  · intro hparse
    unfold parse? at hparse
    split at hparse
    · next all hscan =>
        cases hparse
        unfold scan? at hscan
        split at hscan
        · next v after hfound =>
            obtain ⟨⟨more, left⟩, hmore, hpair⟩ := Option.map_eq_some_iff.mp hscan
            cases hpair
            obtain ⟨number, hnumber, hsplit⟩ := Literal.exists_of_scan hfound
            obtain ⟨front, hfront, hrest⟩ := exists_continues hmore
            rw [List.append_nil] at hrest
            rw [hsplit, hrest]
            exact .list hnumber hfront
        · exact nomatch hscan
    · exact nomatch hparse
  · intro hlists
    unfold parse? scan?
    generalize trim text = s at hlists
    cases hlists with
    | list hnumber hmore =>
        rw [hnumber.scan_append hmore.stops]
        dsimp only
        rw [hmore.scanMore?_eq le_rfl, Option.map_some]

/-! ## Commas -/

/-- A list begins where its first number does. -/
theorem Lists.head (hs : Lists values s) : ∀ c ∈ s.head?, isDivider c = false := by
  cases hs with
  | @list v values number rest hnumber hmore =>
      obtain ⟨c, tail, rfl⟩ := List.exists_cons_of_ne_nil hnumber.ne_nil
      rintro _ ⟨⟩
      exact hnumber.isDivider c List.mem_cons_self

theorem Lists.ne_nil (hs : Lists values s) : s ≠ [] := by
  cases hs with
  | list hnumber hmore => exact List.append_ne_nil_of_left_ne_nil hnumber.ne_nil _

/-- A comma that is not in the first part of a text is in the rest of it. -/
theorem exists_behind {part rest front back : List Char} (hpart : ',' ∉ part)
    (hall : part ++ rest = front ++ ',' :: back) : ∃ middle, rest = middle ++ ',' :: back := by
  rcases List.append_eq_append_iff.mp hall with ⟨middle, -, hrest⟩ | ⟨middle, hsplit, hback⟩
  · exact ⟨middle, hrest⟩
  · cases middle with
    | nil => exact ⟨[], hback.symm⟩
    | cons c middle =>
        obtain ⟨rfl, -⟩ := List.cons.inj hback
        exact absurd (hsplit ▸ List.mem_append_right front List.mem_cons_self) hpart

theorem comma_notMem_blanks {blanks : List Char} (hblanks : AreBlanks blanks) : ',' ∉ blanks :=
  fun hcomma => nomatch hblanks ',' hcomma

theorem comma_notMem_number {v : Float} {number : List Char}
    (hnumber : Literal.IsWritten v number) : ',' ∉ number :=
  fun hcomma => nomatch hnumber.isDivider ',' hcomma

/-- Behind every comma stands a list, after blanks that may be left out. -/
theorem Continues.after_comma {front back : List Char}
    (hs : Continues values (front ++ ',' :: back)) : ∃ more, Lists more (skipBlanks back) := by
  generalize hall : front ++ ',' :: back = s at hs
  induction hs generalizing front with
  | nil => simp at hall
  | @cons v values between number rest hbetween hnumber hmore ih =>
      cases hbetween with
      | @comma before after hbefore hafter =>
          rw [List.append_assoc, List.cons_append] at hall
          obtain ⟨middle, hmiddle⟩ := exists_behind (comma_notMem_blanks hbefore) hall.symm
          -- Either the comma is that of this separator, or it is behind the next number.
          cases middle with
          | nil =>
              obtain ⟨-, rfl⟩ := List.cons.inj hmiddle
              refine ⟨v :: values, ?_⟩
              rw [hnumber.skipBlanks_append hafter]
              exact .list hnumber hmore
          | cons c middle =>
              obtain ⟨-, hinner⟩ := List.cons.inj hmiddle
              obtain ⟨_, hdigits⟩ := exists_behind (comma_notMem_blanks hafter) hinner
              obtain ⟨_, hrest⟩ := exists_behind (comma_notMem_number hnumber) hdigits
              exact ih hrest.symm
      | blanks honly hsome =>
          obtain ⟨_, hdigits⟩ := exists_behind (comma_notMem_blanks honly) hall.symm
          obtain ⟨_, hrest⟩ := exists_behind (comma_notMem_number hnumber) hdigits
          exact ih hrest.symm

theorem Lists.after_comma {front back : List Char} (hs : Lists values (front ++ ',' :: back)) :
    ∃ more, Lists more (skipBlanks back) := by
  generalize hall : front ++ ',' :: back = s at hs
  cases hs with
  | list hnumber hmore =>
      obtain ⟨_, hrest⟩ := exists_behind (comma_notMem_number hnumber) hall.symm
      exact (hrest ▸ hmore).after_comma

theorem Dangles.not_lists (hs : Dangles s) : ¬Lists values s := by
  intro hlists
  cases hs with
  | leading back => exact nomatch hlists.head ',' rfl
  | trailing front =>
      obtain ⟨more, hmore⟩ := hlists.after_comma
      exact hmore.ne_nil rfl
  | doubled front back hblanks =>
      obtain ⟨more, hmore⟩ := hlists.after_comma
      rw [hblanks.skipBlanks_append] at hmore
      exact nomatch hmore.head ',' rfl

theorem Dangles.not_names (hs : Dangles s) : ¬Names pattern s := by
  intro hnames
  have hcomma : ',' ∈ s := by
    cases hs <;> simp
  exact nomatch hnames.isDivider ',' hcomma

end Dash

/-- A text is a dash style exactly if it is the name of one or a list of numbers, and a list only if
it is no name. Commas at either end, or two of them with nothing between, make it neither. -/
theorem StrokeDash.pattern?_named (text : String) :
    (∀ pattern, (StrokeDash.named text).pattern? = some pattern ↔
      Dash.Names pattern (trim text.toList) ∨
        (∀ other, ¬Dash.Names other (trim text.toList)) ∧
          Dash.Lists pattern (trim text.toList)) ∧
      ((StrokeDash.named text).pattern? = none ↔
        ∀ pattern, ¬Dash.Names pattern (trim text.toList) ∧
          ¬Dash.Lists pattern (trim text.toList)) ∧
      (Dash.Dangles (trim text.toList) → (StrokeDash.named text).pattern? = none) := by
  have hsome : ∀ pattern, (StrokeDash.named text).pattern? = some pattern ↔
      Dash.Names pattern (trim text.toList) ∨
        (∀ other, ¬Dash.Names other (trim text.toList)) ∧
          Dash.Lists pattern (trim text.toList) := by
    intro pattern
    rw [StrokeDash.pattern?, Option.or_eq_some_iff, Option.eq_none_iff_forall_ne_some,
      Dash.parse?_eq_some_iff, Dash.named?_eq_some_iff]
    exact or_congr_right (and_congr_left' (forall_congr' fun other =>
      not_congr Dash.named?_eq_some_iff))
  have hnone : (StrokeDash.named text).pattern? = none ↔
      ∀ pattern, ¬Dash.Names pattern (trim text.toList) ∧
        ¬Dash.Lists pattern (trim text.toList) := by
    rw [StrokeDash.pattern?, Option.or_eq_none_iff, Option.eq_none_iff_forall_ne_some,
      Option.eq_none_iff_forall_ne_some, ← forall_and]
    exact forall_congr' fun pattern => and_congr (not_congr Dash.named?_eq_some_iff)
      (not_congr Dash.parse?_eq_some_iff)
  exact ⟨hsome, hnone, fun hdangles => hnone.mpr fun _ =>
    ⟨hdangles.not_names, hdangles.not_lists⟩⟩

example : (StrokeDash.named "6, 2.5").pattern? = some [6, 2.5] := by decide +kernel

end ChartCompiler
