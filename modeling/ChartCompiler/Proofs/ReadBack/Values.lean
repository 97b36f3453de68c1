import ChartCompiler.Proofs.ReadBack.Parts
import ChartCompiler.Proofs.ReadBack.Scaling

/-!
# Values read back

A value that has been read is `Canonical`: it is not nested more deeply than was allowed, the
members of its objects are in order, and its numbers are words or finite doubles. Such a value is
read back from what is written for it, if its doubles are.
-/

namespace ChartCompiler

namespace Json

/-! ## Members in order -/

/-- The members are sorted by name, and no name stands twice. -/
abbrev Members.Sorted (members : Members) : Prop :=
  members.Pairwise fun member other => member.1 < other.1

namespace Members

theorem mem_insert {name : String} {value : Json} {members : Members} {member : String × Json}
    (hmem : member ∈ members.insert name value) : member = (name, value) ∨ member ∈ members := by
  induction members with
  | nil => exact .inl (List.mem_singleton.mp hmem)
  | cons head members ih =>
      rw [insert] at hmem
      split_ifs at hmem with hbefore hsame
      · exact List.mem_cons.mp hmem
      · exact (List.mem_cons.mp hmem).imp_right (List.mem_cons_of_mem _)
      · rcases List.mem_cons.mp hmem with rfl | hrest
        · exact .inr List.mem_cons_self
        · exact (ih hrest).imp_right (List.mem_cons_of_mem _)

theorem Sorted.insert {members : Members} (h : members.Sorted) (name : String) (value : Json) :
    (members.insert name value).Sorted := by
  induction members with
  | nil => exact List.pairwise_singleton _ _
  | cons head members ih =>
      obtain ⟨hhead, htail⟩ := List.pairwise_cons.mp h
      rw [Members.insert]
      split_ifs with hbefore hsame
      · refine List.pairwise_cons.mpr ⟨fun other hother => ?_, h⟩
        rcases List.mem_cons.mp hother with rfl | hrest
        · exact hbefore
        · exact String.lt_trans hbefore (hhead other hrest)
      · subst hsame
        exact List.pairwise_cons.mpr ⟨hhead, htail⟩
      · refine List.pairwise_cons.mpr ⟨fun other hother => ?_, ih htail⟩
        rcases mem_insert hother with rfl | hrest
        · exact lt_of_le_of_ne (not_lt.mp hbefore) (Ne.symm hsame)
        · exact hhead other hrest

/-- A name behind all others goes to the end. -/
theorem insert_of_forall_lt {members : Members} {name : String}
    (h : ∀ member ∈ members, member.1 < name) (value : Json) :
    members.insert name value = members ++ [(name, value)] := by
  induction members with
  | nil => rfl
  | cons head members ih =>
      have hhead := h head List.mem_cons_self
      rw [insert, if_neg (String.lt_asymm hhead), if_neg hhead.ne',
        ih fun member hmember => h member (List.mem_cons_of_mem _ hmember), List.cons_append]

end Members

/-! ## What has been read -/

/-- A value as the reader makes it, with this many brackets open at once at most. -/
inductive Canonical : Nat → Json → Prop
  | null {depth : Nat} : Canonical depth .null
  | bool {depth : Nat} (b : Bool) : Canonical depth (.bool b)
  | number {depth : Nat} {n : Number} (isRead : n.IsRead) : Canonical depth (.number n)
  | string {depth : Nat} (s : String) : Canonical depth (.string s)
  | array {depth : Nat} {items : List Json} (each : ∀ v ∈ items, Canonical depth v) :
      Canonical (depth + 1) (.array items)
  | object {depth : Nat} {members : Members} (sorted : members.Sorted)
      (each : ∀ member ∈ members, Canonical depth member.2) :
      Canonical (depth + 1) (.object members)

theorem forall_mem_of_listRest {α : Type} {item : List Char → Except Fault (α × List Char)}
    {P : α → Prop} (hitem : ∀ {s x rest}, item s = .ok (x, rest) → P x) {s rest : List Char}
    {xs : List α} (hread : listRest item s = .ok (xs, rest)) : ∀ x ∈ xs, P x := by
  unfold listRest at hread
  obtain ⟨⟨before, after⟩, heach, hread⟩ := bind_eq_ok.mp hread
  obtain ⟨last, -, hread⟩ := bind_eq_ok.mp hread
  cases hread
  rw [eachItem_eq] at heach
  have hbefore : ∀ x ∈ before, P x := by
    refine eachPart_invariant (P := fun before => ∀ x ∈ before, P x) ?_ heach nofun
    intro before s after rest hstep hall
    obtain ⟨⟨x, rest⟩, hx, hstep⟩ := bind_eq_ok.mp hstep
    cases hstep
    exact List.forall_mem_cons.mpr ⟨hitem hx, hall⟩
  exact fun x hx => hbefore x (List.mem_reverse.mp hx)

theorem sorted_of_objectRest {item : List Char → Except Fault (Json × List Char)}
    {P : Json → Prop} (hitem : ∀ {s v rest}, item s = .ok (v, rest) → P v) {s rest : List Char}
    {members : Members} (hread : objectRest item s = .ok (members, rest)) :
    members.Sorted ∧ ∀ member ∈ members, P member.2 := by
  unfold objectRest at hread
  obtain ⟨⟨members, after⟩, heach, hread⟩ := bind_eq_ok.mp hread
  obtain ⟨last, -, hread⟩ := bind_eq_ok.mp hread
  cases hread
  rw [eachMember_eq] at heach
  refine eachPart_invariant
    (P := fun members : Members => members.Sorted ∧ ∀ member ∈ members, P member.2) ?_ heach
    ⟨List.Pairwise.nil, nofun⟩
  rintro members s after rest hstep ⟨hsorted, hall⟩
  obtain ⟨⟨name, behindName⟩, -, hstep⟩ := bind_eq_ok.mp hstep
  obtain ⟨behindColon, -, hstep⟩ := bind_eq_ok.mp hstep
  obtain ⟨⟨v, behindValue⟩, hv, hstep⟩ := bind_eq_ok.mp hstep
  cases hstep
  refine ⟨hsorted.insert name v, fun member hmember => ?_⟩
  rcases Members.mem_insert hmember with rfl | hold
  · exact hitem hv
  · exact hall member hold

/-- Scalars are read in the same way at every depth, lists and objects only where more brackets may
be opened. -/
theorem valueWith_cases {nested : Option (List Char → Except Fault (Json × List Char))}
    {s rest : List Char} {v : Json} (hread : valueWith nested s = .ok (v, rest)) :
    (∀ depth, Canonical depth v) ∨ ∃ item after, nested = some item ∧
      ((∃ items, listRest item after = .ok (items, rest) ∧ v = .array items) ∨
        ∃ members, objectRest item after = .ok (members, rest) ∧ v = .object members) := by
  unfold valueWith at hread
  split at hread
  · exact nomatch hread
  · obtain ⟨after, -, hread⟩ := bind_eq_ok.mp hread
    cases hread
    exact .inl fun _ => .null
  · obtain ⟨after, -, hread⟩ := bind_eq_ok.mp hread
    cases hread
    exact .inl fun _ => .bool true
  · obtain ⟨after, -, hread⟩ := bind_eq_ok.mp hread
    cases hread
    exact .inl fun _ => .bool false
  · obtain ⟨⟨text, after⟩, -, hread⟩ := bind_eq_ok.mp hread
    cases hread
    exact .inl fun _ => .string text
  · obtain ⟨⟨n, after⟩, hnumber, hread⟩ := bind_eq_ok.mp hread
    cases hread
    exact .inl fun _ => .number (isRead_unsignedNumber hnumber)
  · split at hread
    · exact nomatch hread
    · next after item =>
        obtain ⟨⟨items, last⟩, hitems, hread⟩ := bind_eq_ok.mp hread
        cases hread
        exact .inr ⟨item, _, rfl, .inl ⟨items, hitems, rfl⟩⟩
  · split at hread
    · exact nomatch hread
    · next after item =>
        obtain ⟨⟨members, last⟩, hmembers, hread⟩ := bind_eq_ok.mp hread
        cases hread
        exact .inr ⟨item, _, rfl, .inr ⟨members, hmembers, rfl⟩⟩
  · split_ifs at hread
    obtain ⟨⟨n, after⟩, hnumber, hread⟩ := bind_eq_ok.mp hread
    cases hread
    exact .inl fun _ => .number (isRead_unsignedNumber hnumber)

theorem canonical_of_value {depth : Nat} {s rest : List Char} {v : Json}
    (hread : value depth s = .ok (v, rest)) : Canonical depth v := by
  induction depth generalizing s rest v with
  | zero =>
      rw [value] at hread
      rcases valueWith_cases hread with hscalar | ⟨item, after, hnone, -⟩
      · exact hscalar 0
      · cases hnone
  | succ depth ih =>
      rw [value] at hread
      rcases valueWith_cases hread with hscalar | ⟨item, after, hitem, hnested⟩
      · exact hscalar (depth + 1)
      · cases hitem
        rcases hnested with ⟨items, hitems, rfl⟩ | ⟨members, hmembers, rfl⟩
        · exact .array (forall_mem_of_listRest ih hitems)
        · obtain ⟨hsorted, hall⟩ := sorted_of_objectRest ih hmembers
          exact .object hsorted hall

/-! ## Reading it back -/

/-- Every finite double in the value is read back from its text. -/
def DoublesReadBack (v : Json) : Prop :=
  ∀ x ∈ v.doubles, x.isFinite = true → (Number.real x).ReadsBack

instance (v : Json) : Decidable v.DoublesReadBack :=
  inferInstanceAs (Decidable (∀ x ∈ v.doubles, x.isFinite = true → (Number.real x).ReadsBack))

theorem doublesReadBack_array {items : List Json} :
    (array items).DoublesReadBack ↔ ∀ v ∈ items, v.DoublesReadBack := by
  rw [DoublesReadBack, doubles]
  induction items with
  | nil => exact iff_of_true (List.forall_mem_nil _) (List.forall_mem_nil _)
  | cons v items ih =>
      rw [itemDoubles, List.forall_mem_append, ih, List.forall_mem_cons, DoublesReadBack]

theorem doublesReadBack_object {members : List (String × Json)} :
    (object members).DoublesReadBack ↔ ∀ member ∈ members, member.2.DoublesReadBack := by
  rw [DoublesReadBack, doubles]
  induction members with
  | nil => exact iff_of_true (List.forall_mem_nil _) (List.forall_mem_nil _)
  | cons member members ih =>
      rw [memberDoubles, List.forall_mem_append, ih, List.forall_mem_cons, DoublesReadBack]

/-- A list is read item by item. -/
theorem listRest_compactItems {α : Type} {reader : Reader α} {depth : Nat} {xs : List α}
    {vs : List Json} (h : List.Forall₂ (reader.Reads depth) xs vs) (rest : List Char) :
    listRest (reader depth) (compactItems vs ++ ']' :: rest) = .ok (xs, rest) := by
  unfold listRest
  refine bind_eq_ok.mpr ⟨(xs.reverse ++ [], _), eachItem_compactItems ?_ rest, ?_⟩
  · -- the items before are those read so far, the last one first
    generalize ([] : List α) = before
    induction h generalizing before with
    | nil => exact .done before
    | @cons x v xs vs hx _ ih =>
        rw [List.reverse_cons, List.append_assoc]
        exact .more (fun rest hrest => bind_eq_ok.mpr ⟨_, hx rest hrest, rfl⟩) (ih (x :: before))
  · rw [List.append_nil]
    exact congrArg (fun items => Except.ok (items, rest)) xs.reverse_reverse

/-- An object whose members are in order is read member by member. -/
theorem objectRest_compactMembers {depth : Nat} {members : Members} (hsorted : members.Sorted)
    (h : ∀ member ∈ members, Reader.Reads value depth member.2 member.2) (rest : List Char) :
    objectRest (value depth) (compactMembers members ++ '\x7d' :: rest) = .ok (members, rest) := by
  unfold objectRest
  refine bind_eq_ok.mpr ⟨_, eachMember_compactMembers ?_ rest, rfl⟩
  -- the members before are those read so far, which sort in front of the others
  suffices hsteps : ∀ before : Members, (before ++ members).Sorted →
      Steps _ before (members.map memberTail) (before ++ members) from hsteps [] hsorted
  induction members with
  | nil =>
      intro before _
      rw [List.append_nil]
      exact .done before
  | cons member members ih =>
      intro before hall
      obtain ⟨hhead, hmembers⟩ := List.forall_mem_cons.mp h
      have hnew : ∀ old ∈ before, old.1 < member.1 := fun old hold =>
        (List.pairwise_append.mp hall).2.2 old hold member List.mem_cons_self
      rw [List.append_cons] at hall ⊢
      refine .more (fun rest hrest => ?_) (ih hsorted.of_cons hmembers _ hall)
      rw [memberTail, List.append_assoc, List.cons_append]
      refine bind_eq_ok.mpr ⟨_, stringRest_stringTail member.1 _, ?_⟩
      refine bind_eq_ok.mpr ⟨_, rfl, bind_eq_ok.mpr ⟨_, hhead rest hrest, ?_⟩⟩
      exact congrArg (fun members => Except.ok (members, rest))
        (Members.insert_of_forall_lt hnew member.2)

/-- What has been read is read back. -/
theorem Canonical.reads {depth : Nat} {v : Json} (h : Canonical depth v)
    (hdoubles : v.DoublesReadBack) : Reader.Reads value depth v v := by
  induction h with
  | @null depth =>
      intro rest _
      obtain ⟨nested, hvalue⟩ := exists_valueWith depth
      rw [hvalue]
      rfl
  | @bool depth b =>
      intro rest _
      obtain ⟨nested, hvalue⟩ := exists_valueWith depth
      rw [hvalue]
      cases b <;> rfl
  | @number depth n hn => exact (hn.readsBack hdoubles).value depth
  | @string depth s =>
      intro rest _
      obtain ⟨nested, hvalue⟩ := exists_valueWith depth
      rw [hvalue, compact, stringText_eq]
      exact bind_eq_ok.mpr ⟨_, stringRest_stringTail s rest, rfl⟩
  | @array depth items _ ih =>
      intro rest _
      have hitems : List.Forall₂ (Reader.Reads value depth) items items :=
        List.forall₂_same.mpr fun v hv => ih v hv (doublesReadBack_array.mp hdoubles v hv)
      rw [compact, List.cons_append, List.append_assoc, value]
      exact bind_eq_ok.mpr ⟨_, listRest_compactItems hitems rest, rfl⟩
  | @object depth members hsorted _ ih =>
      intro rest _
      rw [compact, List.cons_append, List.append_assoc, value]
      exact bind_eq_ok.mpr ⟨_, objectRest_compactMembers hsorted
        (fun member hmember => ih member hmember (doublesReadBack_object.mp hdoubles member hmember))
        rest, rfl⟩

end Json

end ChartCompiler
