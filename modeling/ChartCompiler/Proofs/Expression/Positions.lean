import ChartCompiler.Proofs.Expression.Literals

/-!
# Texts that are positions

The grammar of coordinates, and that a text is understood exactly as it says. The scanner tries a
number first and a keyword only where no number begins; no keyword begins as a number does, and no
two keywords begin with the same letter, so the order of its attempts decides nothing.
-/

namespace ChartCompiler

namespace Position

inductive IsWritten : Position → List Char → Prop
  | percent {v : Float} {front number middle back : List Char} (before : AreBlanks front)
      (literal : Literal.IsWritten v number) (between : AreBlanks middle) (after : AreBlanks back) :
      IsWritten (.percent v) (front ++ (number ++ (middle ++ '%' :: back)))
  | keyword {k : Keyword} {front word back : List Char} (before : AreBlanks front)
      (named : lowerAscii word = k.name.toList) (after : AreBlanks back) :
      IsWritten (.keyword k) (front ++ (word ++ back))
  | pixels {v : Float} {front number back : List Char} (before : AreBlanks front)
      (literal : Literal.IsWritten v number) (after : AreBlanks back) :
      IsWritten (.pixels v) (front ++ (number ++ back))

end Position

/-! ## Keywords -/

namespace Keyword

def letter : Keyword → Char
  | center => 'c'
  | middle => 'm'
  | left => 'l'
  | right => 'r'
  | top => 't'
  | bottom => 'b'

theorem letter_injective {k l : Keyword} (h : k.letter = l.letter) : k = l := by
  cases k <;> cases l <;> first | rfl | exact absurd h (by decide)

theorem exists_name_eq (k : Keyword) : ∃ more, k.name.toList = k.letter :: more := by
  cases k <;> exact ⟨_, rfl⟩

/-- A keyword begins neither as a number nor as a word that stands for one. -/
theorem letter_not_number (k : Keyword) :
    ¬Numeral.Begins k.letter ∧ k.letter ≠ 'n' ∧ k.letter ≠ 'i' := by
  cases k <;> decide

variable {k : Keyword} {word rest : List Char}

theorem exists_cons_of_name (hword : lowerAscii word = k.name.toList) :
    ∃ c tail, word = c :: tail ∧ c.toLower = k.letter := by
  obtain ⟨more, hname⟩ := k.exists_name_eq
  exact exists_toLower_eq (hword.trans hname)

theorem ne_nil (hword : lowerAscii word = k.name.toList) : word ≠ [] := by
  obtain ⟨c, tail, rfl, -⟩ := exists_cons_of_name hword
  exact List.cons_ne_nil c tail

theorem literal_absent (hword : lowerAscii word = k.name.toList) :
    Literal.scan (word ++ rest) = .absent := by
  obtain ⟨c, tail, rfl, hc⟩ := exists_cons_of_name hword
  exact Literal.scan_eq_absent_of_toLower hc k.letter_not_number.1 k.letter_not_number.2 _

theorem afterWord?_of_ne {l : Keyword} (hword : lowerAscii word = k.name.toList) (hl : l ≠ k) :
    afterWord? l.name (word ++ rest) = none := by
  obtain ⟨c, tail, rfl, hc⟩ := exists_cons_of_name hword
  obtain ⟨more, hname⟩ := l.exists_name_eq
  exact afterWord?_eq_none hname (fun hsame => hl (letter_injective (hsame.symm.trans hc))) _

/-- Only the keyword that stands there is found. -/
theorem scan?_append (hword : lowerAscii word = k.name.toList) :
    scan? (word ++ rest) = some (k, rest) := by
  have hfound : afterWord? k.name (word ++ rest) = some rest :=
    afterWord?_eq_some_iff.mpr ⟨word, hword, rfl⟩
  have hothers : ∀ l, l ≠ k → afterWord? l.name (word ++ rest) = none :=
    fun _ hl => afterWord?_of_ne hword hl
  unfold scan? all
  cases k <;> simp [List.findSome?, hfound, hothers]

theorem exists_of_scan? {s : List Char} (hscan : scan? s = some (k, rest)) :
    ∃ word, lowerAscii word = k.name.toList ∧ s = word ++ rest := by
  obtain ⟨l, -, hl⟩ := List.exists_of_findSome?_eq_some hscan
  obtain ⟨after, hafter, hpair⟩ := Option.map_eq_some_iff.mp hl
  cases hpair
  exact afterWord?_eq_some_iff.mp hafter

/-- Nothing divides a keyword. -/
theorem isDivider (hword : lowerAscii word = k.name.toList) : ∀ c ∈ word, isDivider c = false := by
  refine isDivider_of_lowerAscii hword ?_
  cases k <;> simp [name, ChartCompiler.isDivider, isBlank]

end Keyword

/-! ## Positions -/

namespace Position

/-- A number at the front of a text, up to what comes behind the blanks after it. -/
theorem scanSpaced_append {v : Float} {front number blanks rest : List Char}
    (hfront : AreBlanks front) (hnumber : Literal.IsWritten v number) (hblanks : AreBlanks blanks)
    (hrest : ∀ c ∈ rest.head?, isDivider c = true ∧ isBlank c = false) :
    Literal.scanSpaced (front ++ (number ++ (blanks ++ rest))) = .found v rest := by
  have hstops : Literal.Stops (blanks ++ rest) := by
    refine Literal.stops_of_isDivider fun c hc => ?_
    cases blanks with
    | nil => exact (hrest c hc).1
    | cons b blanks =>
        cases hc
        exact isDivider_of_isBlank (hblanks _ List.mem_cons_self)
  rw [Literal.scanSpaced, hnumber.skipBlanks_append hfront, hnumber.scan_append hstops]
  dsimp only
  rw [hblanks.skipBlanks_append, skipBlanks_eq_self fun c hc => (hrest c hc).2]

theorem exists_of_scanSpaced {v : Float} {s rest : List Char}
    (hscan : Literal.scanSpaced s = .found v rest) :
    ∃ front number blanks, AreBlanks front ∧ Literal.IsWritten v number ∧ AreBlanks blanks ∧
      s = front ++ (number ++ (blanks ++ rest)) := by
  obtain ⟨front, hfront, hsplit⟩ := exists_areBlanks s
  unfold Literal.scanSpaced at hscan
  split at hscan
  · next after hfound =>
      cases hscan
      obtain ⟨number, hnumber, hafter⟩ := Literal.exists_of_scan hfound
      obtain ⟨blanks, hblanks, hrest⟩ := exists_areBlanks after
      exact ⟨front, number, blanks, hfront, hnumber, hblanks, by rw [← hrest, ← hafter, ← hsplit]⟩
  · next hother => exact absurd hscan (hother v rest)

theorem scan?_skipBlanks (s : List Char) : scan? (skipBlanks s) = scan? s := by
  have htwice : skipBlanks (skipBlanks s) = skipBlanks s := List.dropWhile_idempotent isBlank s
  unfold scan? Literal.scanSpaced
  rw [htwice]

theorem parse?_of_scan? {p : Position} {s rest : List Char} (hscan : scan? s = some (p, rest))
    (hrest : AreBlanks rest) : parse? s = some p := by
  rw [parse?, scan?_skipBlanks, hscan]
  dsimp only
  rw [hrest.skipBlanks_eq]
  rfl

theorem IsWritten.parse? {p : Position} {s : List Char} (hs : IsWritten p s) :
    Position.parse? s = some p := by
  cases hs with
  | @percent v front number middle back hfront hnumber hmiddle hback =>
      have hscan : Literal.scanSpaced (front ++ (number ++ (middle ++ '%' :: back))) =
          .found v ('%' :: back) :=
        scanSpaced_append hfront hnumber hmiddle (by rintro _ ⟨⟩; exact ⟨rfl, rfl⟩)
      have hposition : scan? (front ++ (number ++ (middle ++ '%' :: back))) =
          some (.percent v, back) := by
        rw [scan?, hscan]
        rfl
      exact parse?_of_scan? hposition hback
  | @keyword k front word back hfront hword hback =>
      have hskip : skipBlanks (front ++ (word ++ back)) = word ++ back :=
        hfront.skipBlanks_part (Keyword.ne_nil hword) (Keyword.isDivider hword) back
      -- The scanner gets to the keywords because no number begins as they do.
      have hnone : Literal.scanSpaced (front ++ (word ++ back)) = .absent := by
        rw [Literal.scanSpaced, hskip, Keyword.literal_absent hword]
      have hposition : scan? (front ++ (word ++ back)) = some (.keyword k, []) := by
        rw [scan?, hnone]
        dsimp only
        rw [hskip, Keyword.scan?_append hword, Option.map_some, hback.skipBlanks_eq]
      exact parse?_of_scan? hposition nofun
  | @pixels v front number back hfront hnumber hback =>
      have hscan : Literal.scanSpaced (front ++ (number ++ (back ++ []))) = .found v [] :=
        scanSpaced_append hfront hnumber hback nofun
      rw [List.append_nil] at hscan
      have hposition : scan? (front ++ (number ++ back)) = some (.pixels v, []) := by
        rw [scan?, hscan]
      exact parse?_of_scan? hposition nofun

theorem isWritten_of_parse? {p : Position} {s : List Char} (hparse : Position.parse? s = some p) :
    IsWritten p s := by
  rw [Position.parse?, scan?_skipBlanks] at hparse
  split at hparse
  · next position rest hscan =>
      split_ifs at hparse with hempty
      cases hparse
      obtain ⟨back, hback, hrest⟩ := exists_areBlanks rest
      rw [List.isEmpty_iff.mp hempty, List.append_nil] at hrest
      subst hrest
      unfold scan? at hscan
      split at hscan
      · exact nomatch hscan
      · next v after hnumber =>
          cases hscan
          obtain ⟨front, number, blanks, hfront, hliteral, hblanks, rfl⟩ :=
            exists_of_scanSpaced hnumber
          exact .percent hfront hliteral hblanks hback
      · next v after hother hnumber =>
          cases hscan
          obtain ⟨front, number, blanks, hfront, hliteral, hblanks, rfl⟩ :=
            exists_of_scanSpaced hnumber
          exact .pixels hfront hliteral (List.forall_mem_append.mpr ⟨hblanks, hback⟩)
      · obtain ⟨⟨k, after⟩, hfound, hpair⟩ := Option.map_eq_some_iff.mp hscan
        cases hpair
        obtain ⟨front, hfront, hsplit⟩ := exists_areBlanks s
        obtain ⟨word, hword, hafter⟩ := Keyword.exists_of_scan? hfound
        obtain ⟨blanks, hblanks, hrest⟩ := exists_areBlanks after
        rw [hsplit, hafter]
        refine .keyword hfront hword ?_
        rw [hrest]
        exact List.forall_mem_append.mpr ⟨hblanks, hback⟩
  · exact nomatch hparse

end Position

/-- A text is a coordinate exactly if it is written as one, and then it has that one meaning. -/
theorem Coord.position?_expression (text : String) :
    (∀ p, (Coord.expression text).position? = some p ↔ Position.IsWritten p text.toList) ∧
      ((Coord.expression text).position? = none ↔ ∀ p, ¬Position.IsWritten p text.toList) := by
  have hiff : ∀ p, (Coord.expression text).position? = some p ↔
      Position.IsWritten p text.toList :=
    fun p => ⟨Position.isWritten_of_parse?, Position.IsWritten.parse?⟩
  refine ⟨hiff, ?_⟩
  rw [Option.eq_none_iff_forall_ne_some]
  exact forall_congr' fun p => not_congr (hiff p)

example : (Coord.expression " 7.5 %").position? = some (.percent 7.5) := by rfl

end ChartCompiler
