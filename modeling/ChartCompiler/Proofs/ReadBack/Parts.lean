import ChartCompiler.Proofs.ReadBack.Numerals

/-!
# Strings, lists and objects read back

Every string is read back, control characters and all. A list or an object is written as its parts
with commas between them; a step that takes the parts one after the other, each up to what closes
it, takes the whole (`Steps`).
-/

namespace ChartCompiler

namespace Json

/-! ## Strings -/

/-- What is written of a string behind its opening quote. -/
def stringTail (s : String) : List Char :=
  s.toList.flatMap escapedChar ++ ['"']

theorem stringText_eq (s : String) : stringText s = '"' :: stringTail s := rfl

theorem unicodeEscape_control {n : Nat} (hn : n < 0x20) (rest : List Char) :
    unicodeEscape (List.replicate (4 - (hexDigits n).length) '0' ++ hexDigits n ++ rest) =
      .ok (Char.ofNat n, rest) := by
  interval_cases n <;> rfl

/-- What is written for a character is read as this character. -/
theorem stringBody_escapedChar (before : List Char) (b : Char) (bound : List Char) (c : Char)
    (rest : List Char) :
    stringBody before (b :: bound) (escapedChar c ++ rest) = stringBody (c :: before) bound rest := by
  unfold escapedChar
  split
  · rfl
  · rfl
  · rfl
  · rfl
  · rfl
  · rfl
  · rfl
  · next hquote hslash _ _ _ _ _ =>
      dsimp only
      split_ifs with hcontrol
      · have hescape := unicodeEscape_control hcontrol rest
        rw [List.append_assoc, Char.ofNat_toNat] at hescape
        rw [List.cons_append, List.cons_append, List.append_assoc, stringBody, hescape]
      · rw [List.singleton_append, stringBody]
        · rw [if_neg hcontrol]
        · exact hquote
        · exact hslash

theorem stringBody_escaped (before : List Char) {bound cs : List Char}
    (hbound : cs.length ≤ bound.length) (rest : List Char) :
    stringBody before bound (cs.flatMap escapedChar ++ '"' :: rest) =
      .ok (String.ofList (before.reverse ++ cs), rest) := by
  induction cs generalizing before bound with
  | nil =>
      rw [List.append_nil]
      cases bound <;> rfl
  | cons c cs ih =>
      cases bound with
      | nil => exact absurd hbound (by simp)
      | cons b bound =>
          rw [List.flatMap_cons, List.append_assoc, stringBody_escapedChar,
            ih (c :: before) (Nat.le_of_succ_le_succ hbound), List.reverse_cons, List.append_assoc]
          rfl

theorem length_le_flatMap_escapedChar (cs : List Char) :
    cs.length ≤ (cs.flatMap escapedChar).length := by
  induction cs with
  | nil => exact Nat.le_refl 0
  | cons c cs ih =>
      have hchar : 1 ≤ (escapedChar c).length := by
        unfold escapedChar
        split <;> first | exact Nat.succ_pos _ | (dsimp only; split_ifs <;> exact Nat.succ_pos _)
      rw [List.flatMap_cons, List.length_append, List.length_cons]
      omega

/-- Every string reads back. -/
theorem stringRest_stringTail (s : String) (rest : List Char) :
    stringRest (stringTail s ++ rest) = .ok (s, rest) := by
  have hbound : s.toList.length ≤ (s.toList.flatMap escapedChar ++ '"' :: rest).length := by
    have hlength := length_le_flatMap_escapedChar s.toList
    rw [List.length_append]
    omega
  rw [stringTail, List.append_assoc, List.singleton_append, stringRest,
    stringBody_escaped [] hbound rest, List.reverse_nil, List.nil_append, String.ofList_toList]

/-! ## Loops over parts -/

section EachPart

variable {σ : Type} {next : Bool → List Char → Except Fault (Option (List Char))}
  {step : σ → List Char → Except Fault (σ × List Char)}

/-- The loop over the parts of a list or of an object, where `next` finds the next part. -/
def eachPart (next : Bool → List Char → Except Fault (Option (List Char)))
    (step : σ → List Char → Except Fault (σ × List Char)) (first : Bool) :
    (bound : List Char) → σ → List Char → Except Fault (σ × List Char)
  | bound, state, s =>
      match next first s with
      | .error fault => .error fault
      | .ok none => .ok (state, s)
      | .ok (some part) =>
          match bound with
          | [] => .error .cutShort
          | _ :: bound =>
              match step state part with
              | .error fault => .error fault
              | .ok (state, rest) => eachPart next step false bound state rest

theorem eachItem_eq (first : Bool) (bound : List Char) (state : σ) (s : List Char) :
    eachItem step first bound state s = eachPart nextItem step first bound state s := by
  induction bound generalizing first state s with
  | nil =>
      unfold eachItem eachPart
      rfl
  | cons b bound ih =>
      unfold eachItem eachPart
      cases nextItem first s with
      | error fault => rfl
      | ok found =>
          cases found with
          | none => rfl
          | some part =>
              dsimp only
              cases step state part with
              | error fault => rfl
              | ok taken => exact ih false taken.1 taken.2

theorem eachMember_eq (first : Bool) (bound : List Char) (state : σ) (s : List Char) :
    eachMember step first bound state s = eachPart nextName step first bound state s := by
  induction bound generalizing first state s with
  | nil =>
      unfold eachMember eachPart
      rfl
  | cons b bound ih =>
      unfold eachMember eachPart
      cases nextName first s with
      | error fault => rfl
      | ok found =>
          cases found with
          | none => rfl
          | some part =>
              dsimp only
              cases step state part with
              | error fault => rfl
              | ok taken => exact ih false taken.1 taken.2

/-- What every step keeps holds at the end. -/
theorem eachPart_invariant {P : σ → Prop}
    (hstep : ∀ {state s after rest}, step state s = .ok (after, rest) → P state → P after)
    {first : Bool} {bound s rest : List Char} {state last : σ}
    (hread : eachPart next step first bound state s = .ok (last, rest)) (h : P state) :
    P last := by
  induction bound generalizing first state s with
  | nil =>
      unfold eachPart at hread
      split at hread
      · exact nomatch hread
      · cases hread
        exact h
      · exact nomatch hread
  | cons b bound ih =>
      unfold eachPart at hread
      split at hread
      · exact nomatch hread
      · cases hread
        exact h
      · dsimp only at hread
        split at hread
        · exact nomatch hread
        · next hnext => exact ih hread (hstep hnext h)

/-- The step takes one part after the other, each up to what closes it. -/
inductive Steps (step : σ → List Char → Except Fault (σ × List Char)) :
    σ → List (List Char) → σ → Prop
  | done (state : σ) : Steps step state [] state
  | more {state after last : σ} {part : List Char} {parts : List (List Char)}
      (head : ∀ rest, Closes rest → step state (part ++ rest) = .ok (after, rest))
      (tail : Steps step after parts last) : Steps step state (part :: parts) last

def behindCommas (texts : List (List Char)) : List Char :=
  texts.flatMap fun text => ',' :: text

theorem behindCommas_cons (text : List Char) (texts : List (List Char)) (rest : List Char) :
    behindCommas (text :: texts) ++ rest = ',' :: (text ++ (behindCommas texts ++ rest)) := by
  rw [behindCommas, List.flatMap_cons, List.append_assoc]
  rfl

theorem closes_behindCommas (texts : List (List Char)) {rest : List Char} (hrest : Closes rest) :
    Closes (behindCommas texts ++ rest) := by
  cases texts with
  | nil => exact hrest
  | cons text texts =>
      rw [behindCommas_cons]
      exact closes_comma _

def commaSeparated : List (List Char) → List Char
  | [] => []
  | text :: texts => text ++ behindCommas texts

theorem length_le_behindCommas (texts : List (List Char)) :
    texts.length ≤ (behindCommas texts).length := by
  induction texts with
  | nil => exact Nat.le_refl 0
  | cons text texts ih =>
      rw [behindCommas] at ih ⊢
      rw [List.flatMap_cons, List.length_append, List.length_cons, List.length_cons]
      omega

theorem length_le_commaSeparated {texts : List (List Char)} (hne : ∀ text ∈ texts, text ≠ [])
    (rest : List Char) : texts.length ≤ (commaSeparated texts ++ rest).length := by
  cases texts with
  | nil => exact Nat.zero_le _
  | cons text texts =>
      have hcommas := length_le_behindCommas texts
      have htext := List.length_pos_of_ne_nil (hne text List.mem_cons_self)
      rw [commaSeparated, List.length_append, List.length_append, List.length_cons]
      omega

variable {state last : σ} {parts : List (List Char)} {lead after : List Char}
  (h : Steps step state parts last) (hafter : Closes after)
  (hend : ∀ first, next first after = .ok none)
  (hnext : ∀ part ∈ parts, ∀ rest, next false (',' :: (lead ++ part ++ rest)) =
    .ok (some (part ++ rest)))
include h hafter hend hnext

theorem eachPart_behindCommas {bound : List Char} (hbound : parts.length ≤ bound.length) :
    eachPart next step false bound state (behindCommas (parts.map (lead ++ ·)) ++ after) =
      .ok (last, after) := by
  induction h generalizing bound with
  | done state =>
      unfold eachPart
      rw [List.map_nil, behindCommas, List.flatMap_nil, List.nil_append, hend]
  | @more state between last part parts head tail ih =>
      cases bound with
      | nil => exact absurd hbound (by simp)
      | cons b bound =>
          unfold eachPart
          rw [List.map_cons, behindCommas_cons, hnext part List.mem_cons_self]
          dsimp only
          rw [head _ (closes_behindCommas _ hafter)]
          exact ih (fun part hpart => hnext part (List.mem_cons_of_mem _ hpart))
            (Nat.le_of_succ_le_succ hbound)

/-- A step that takes one part after the other takes the parts between their commas. -/
theorem eachPart_commaSeparated
    (hfirst : ∀ part ∈ parts, ∀ rest, next true (lead ++ part ++ rest) = .ok (some (part ++ rest)))
    {bound : List Char} (hbound : parts.length ≤ bound.length) :
    eachPart next step true bound state (commaSeparated (parts.map (lead ++ ·)) ++ after) =
      .ok (last, after) := by
  cases h with
  | done state =>
      unfold eachPart
      rw [List.map_nil, commaSeparated, List.nil_append, hend]
  | @more state between last part parts head tail =>
      cases bound with
      | nil => exact absurd hbound (by simp)
      | cons b bound =>
          unfold eachPart
          rw [List.map_cons, commaSeparated, List.append_assoc, hfirst part List.mem_cons_self]
          dsimp only
          rw [head _ (closes_behindCommas _ hafter)]
          exact eachPart_behindCommas tail hafter hend
            (fun part hpart => hnext part (List.mem_cons_of_mem _ hpart))
            (Nat.le_of_succ_le_succ hbound)

end EachPart

/-! ## Lists and objects -/

theorem compactItems_eq (vs : List Json) :
    compactItems vs = commaSeparated (vs.map compact) := by
  induction vs with
  | nil => rfl
  | cons v vs ih =>
      cases vs with
      | nil => exact (List.append_nil _).symm
      | cons w vs =>
          rw [compactItems, ih]
          rfl

/-- A member behind the quote that opens its name. -/
def memberTail (member : String × Json) : List Char :=
  stringTail member.1 ++ ':' :: member.2.compact

theorem compactMembers_eq (members : List (String × Json)) :
    compactMembers members = commaSeparated ((members.map memberTail).map (['"'] ++ ·)) := by
  induction members with
  | nil => rfl
  | cons member members ih =>
      cases members with
      | nil => simp [compactMembers, commaSeparated, behindCommas, stringText_eq, memberTail]
      | cons next members =>
          rw [compactMembers, ih]
          simp [commaSeparated, behindCommas, stringText_eq, memberTail]

theorem nextItem_compact (v : Json) (rest : List Char) :
    nextItem true (v.compact ++ rest) = .ok (some (v.compact ++ rest)) := by
  obtain ⟨c, s, hcompact, hopens⟩ := exists_opens_compact v
  rw [hcompact, List.cons_append, nextItem, skipBlanks_cons (isBlank_of_opens hopens)]
  split
  · next heq => exact nomatch heq
  · next heq =>
      obtain ⟨rfl, -⟩ := List.cons.inj heq
      exact absurd hopens (by decide)
  · next heq =>
      obtain ⟨rfl, rfl⟩ := List.cons.inj heq
      rfl

theorem nextItem_comma (v : Json) (rest : List Char) :
    nextItem false (',' :: (v.compact ++ rest)) = .ok (some (v.compact ++ rest)) := by
  obtain ⟨c, s, hcompact, hopens⟩ := exists_opens_compact v
  have hcomma : skipBlanks (',' :: c :: (s ++ rest)) = ',' :: c :: (s ++ rest) := rfl
  rw [hcompact, List.cons_append, nextItem, hcomma]
  split
  · next heq => cases heq
  · next heq => exact absurd (List.cons.inj heq).1 (by decide)
  · next heq =>
      obtain ⟨rfl, rfl⟩ := List.cons.inj heq
      rw [if_neg Bool.false_ne_true, if_pos rfl, skipBlanks_cons (isBlank_of_opens hopens)]
      split
      · next heq => cases heq
      · next heq =>
          obtain ⟨rfl, -⟩ := List.cons.inj heq
          exact absurd hopens (by decide)
      · rfl

section Whole

variable {σ : Type} {step : σ → List Char → Except Fault (σ × List Char)} {state last : σ}

/-- A step that takes one item after the other takes the items of a list. -/
theorem eachItem_compactItems {vs : List Json} (h : Steps step state (vs.map compact) last)
    (rest : List Char) :
    eachItem step true (compactItems vs ++ ']' :: rest) state (compactItems vs ++ ']' :: rest) =
      .ok (last, ']' :: rest) := by
  have hne : ∀ text ∈ vs.map compact, text ≠ [] := by
    simp only [List.forall_mem_map]
    intro v hv hnil
    obtain ⟨c, s, hcompact, -⟩ := exists_opens_compact v
    exact nomatch hnil.symm.trans hcompact
  have hend : ∀ first, nextItem first (']' :: rest) = .ok none := by
    intro first
    cases first <;> rfl
  have hnext : ∀ part ∈ vs.map compact, ∀ rest,
      nextItem false (',' :: ([] ++ part ++ rest)) = .ok (some (part ++ rest)) := by
    simpa using fun v _ => nextItem_comma v
  have hfirst : ∀ part ∈ vs.map compact, ∀ rest,
      nextItem true ([] ++ part ++ rest) = .ok (some (part ++ rest)) := by
    simpa using fun v _ => nextItem_compact v
  have heach := eachPart_commaSeparated h (closes_bracket rest) hend hnext hfirst
    (length_le_commaSeparated hne (']' :: rest))
  rw [eachItem_eq, compactItems_eq]
  rwa [show (vs.map compact).map ([] ++ ·) = vs.map compact from List.map_id _] at heach

/-- A step that takes one member after the other takes the members of an object. -/
theorem eachMember_compactMembers {members : List (String × Json)}
    (h : Steps step state (members.map memberTail) last) (rest : List Char) :
    eachMember step true (compactMembers members ++ '\x7d' :: rest) state
      (compactMembers members ++ '\x7d' :: rest) = .ok (last, '\x7d' :: rest) := by
  have hne : ∀ text ∈ (members.map memberTail).map (['"'] ++ ·), text ≠ [] := by
    intro text hmem
    obtain ⟨part, -, rfl⟩ := List.mem_map.mp hmem
    exact List.cons_ne_nil _ _
  have hbound := length_le_commaSeparated hne ('\x7d' :: rest)
  rw [List.length_map] at hbound
  rw [eachMember_eq, compactMembers_eq]
  exact eachPart_commaSeparated h (closes_brace rest) (fun first => by cases first <;> rfl)
    (fun part _ rest => rfl) (fun part _ rest => rfl) hbound

end Whole

end Json

end ChartCompiler
