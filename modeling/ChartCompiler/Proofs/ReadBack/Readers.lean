import ChartCompiler.Proofs.ReadBack.Values

/-!
# Readers that read back what they have read

A reader round-trips if what it has read is read back from what is written for it. The question is
never asked of all values of a type: only finite doubles have a text of their own, and only numbers
of so many bits are read at all.
-/

namespace ChartCompiler

namespace Json

namespace Reader

variable {α : Type} {reader : Reader α} {depth : Nat} {write : α → Json}

/-- The value is read back from what is written for it, if the doubles in there are. -/
def Restores (reader : Reader α) (depth : Nat) (write : α → Json) (x : α) : Prop :=
  (write x).DoublesReadBack → reader.Reads depth x (write x)

/-- What the reader has read it reads back. -/
def RoundTrips (reader : Reader α) (depth : Nat) (write : α → Json) : Prop :=
  ∀ s x rest, reader depth s = .ok (x, rest) → reader.Restores depth write x

def RefusesNull (reader : Reader α) : Prop :=
  ∀ depth s x rest, reader depth ('n' :: s) ≠ .ok (x, rest)

/-! ## Strings, truth values and numbers -/

theorem roundTrips_string (depth : Nat) : string.RoundTrips depth .string :=
  fun _ _ _ _ _ rest _ => stringRest_stringTail _ rest

theorem refusesNull_string : string.RefusesNull := nofun

theorem restores_bool (depth : Nat) (b : Bool) : bool.Restores depth .bool b := by
  intro _ rest _
  cases b <;> rfl

theorem roundTrips_bool (depth : Nat) : bool.RoundTrips depth .bool :=
  fun _ _ _ _ => restores_bool depth _

theorem isRead_of_number {wanted : String} {s rest : List Char} {n : Number}
    (hread : number wanted depth s = .ok (n, rest)) : n.IsRead := by
  unfold number at hread
  split at hread
  · exact isRead_unsignedNumber hread
  · split_ifs at hread
    exact isRead_unsignedNumber hread
  · exact nomatch hread

/-- Doubles round-trip as far as their texts do. -/
theorem roundTrips_float (depth : Nat) : float.RoundTrips depth .float := by
  intro s x rest hread hdoubles after hafter
  obtain ⟨⟨n, rest⟩, hnumber, hread⟩ := bind_eq_ok.mp hread
  cases hread
  have hback : (Number.real n.toFloat).ReadsBack :=
    hdoubles n.toFloat (List.mem_singleton_self _) (isRead_of_number hnumber).isFinite_toFloat
  exact bind_eq_ok.mpr ⟨_, hback.number "f64" depth after hafter, rfl⟩

theorem refusesNull_float : float.RefusesNull := nofun

/-- Natural numbers of up to 64 bits are read back. -/
theorem restores_natural {bound n : Nat} (hbound : bound ≤ 2 ^ 64) (hn : n < bound)
    (wanted : String) (depth : Nat) : (natural wanted bound).Restores depth .nat n := by
  intro _ after hafter
  have hword : IsWord n := ⟨by omega, by omega⟩
  refine bind_eq_ok.mpr ⟨_, (Number.readsBack_integer hword).number wanted depth after hafter, ?_⟩
  dsimp only
  rw [if_pos ⟨by omega, by omega⟩]
  rfl

theorem roundTrips_natural {bound : Nat} (hbound : bound ≤ 2 ^ 64) (wanted : String)
    (depth : Nat) : (natural wanted bound).RoundTrips depth .nat := by
  intro s n rest hread
  obtain ⟨⟨m, behind⟩, -, hread⟩ := bind_eq_ok.mp hread
  cases m with
  | real x => exact nomatch hread
  | integer m =>
      dsimp only at hread
      split_ifs at hread with hm
      cases hread
      exact restores_natural hbound (by omega) wanted depth

theorem refusesNull_natural (wanted : String) (bound : Nat) :
    (natural wanted bound).RefusesNull := nofun

/-! ## Lists and values that may be missing -/

/-- A list round-trips if its items do. -/
theorem RoundTrips.list (h : reader.RoundTrips depth write) :
    (list reader).RoundTrips (depth + 1) fun xs => .array (xs.map write) := by
  intro s xs rest hread hdoubles after _
  have hitems : ∀ x ∈ xs, reader.Restores depth write x := by
    unfold Reader.list at hread
    split at hread
    · exact forall_mem_of_listRest (h _ _ _) hread
    · exact nomatch hread
  have hwritten : ∀ x ∈ xs, (write x).DoublesReadBack := fun x hx =>
    doublesReadBack_array.mp hdoubles _ (List.mem_map_of_mem hx)
  have hreads : List.Forall₂ (reader.Reads depth) xs (xs.map write) :=
    List.forall₂_map_right_iff.mpr (List.forall₂_same.mpr fun x hx => hitems x hx (hwritten x hx))
  rw [compact, List.cons_append, List.append_assoc]
  exact listRest_compactItems hreads after

theorem restores_nil (reader : Reader α) (depth : Nat) (write : α → Json) :
    (list reader).Restores (depth + 1) (fun xs => .array (xs.map write)) [] :=
  fun _ rest _ => listRest_compactItems .nil rest

theorem refusesNull_list (reader : Reader α) : (list reader).RefusesNull := nofun

/-- A value that a reader without `null` takes is not written as `null`. -/
theorem head_ne_of_reads (hnull : reader.RefusesNull) {x : α} {v : Json}
    (hreads : reader.Reads depth x v) : ∃ c s, v.compact = c :: s ∧ c ≠ 'n' ∧ isBlank c = false := by
  obtain ⟨c, s, hcompact, hopens⟩ := exists_opens_compact v
  refine ⟨c, s, hcompact, ?_, isBlank_of_opens hopens⟩
  rintro rfl
  have hread := hreads [] closes_nil
  rw [hcompact] at hread
  exact hnull depth _ x [] hread

/-- A value that may be missing round-trips if it does so where it is given. -/
theorem RoundTrips.orNull (h : reader.RoundTrips depth write) (hnull : reader.RefusesNull) :
    reader.orNull.RoundTrips depth (Json.orNull write) := by
  intro s x rest hread hdoubles after hafter
  cases x with
  | none => rfl
  | some x =>
      have hreads : reader.Reads depth x (write x) := by
        unfold Reader.orNull at hread
        split at hread
        · obtain ⟨behind, -, hread⟩ := bind_eq_ok.mp hread
          exact nomatch hread
        · obtain ⟨⟨y, behind⟩, hy, hread⟩ := bind_eq_ok.mp hread
          cases hread
          exact h _ _ _ hy hdoubles
      obtain ⟨c, s, hcompact, hc, hblank⟩ := head_ne_of_reads hnull hreads
      have hread := hreads after hafter
      rw [Json.orNull, hcompact] at *
      rw [List.cons_append, Reader.orNull, skipBlanks_cons hblank]
      split
      · next heq => exact absurd (List.cons.inj heq).1 hc
      · exact bind_eq_ok.mpr ⟨_, hread, rfl⟩

theorem restores_noValues (depth : Nat) : (list value).Restores (depth + 1) .array [] :=
  restores_nil value depth id

/-- A list of values of any kind round-trips. -/
theorem roundTrips_values (depth : Nat) : (list value).RoundTrips (depth + 1) .array := by
  have hvalue : Reader.RoundTrips value depth id := fun _ _ _ hread =>
    (canonical_of_value hread).reads
  have hwrite : (fun vs => Json.array (vs.map id)) = Json.array :=
    funext fun vs => congrArg Json.array vs.map_id
  rw [← hwrite]
  exact hvalue.list

/-! ## Choices -/

section Choice

variable {choices : List (String × α)} {name : α → String}
  (hname : ∀ x, choices.lookup (name x) = some x) (otherwise : Option α)
include hname

theorem restores_choice (depth : Nat) (x : α) :
    (choice choices otherwise).Restores depth (fun x => .string (name x)) x := by
  intro _ after _
  refine bind_eq_ok.mpr ⟨_, stringRest_stringTail (name x) after, bind_eq_ok.mpr ⟨x, ?_, rfl⟩⟩
  dsimp only
  rw [hname x]
  rfl

/-- A choice round-trips if every value is found under the name that is written for it. -/
theorem roundTrips_choice (depth : Nat) :
    (choice choices otherwise).RoundTrips depth fun x => .string (name x) :=
  fun _ _ _ _ => restores_choice hname otherwise depth _

end Choice

theorem refusesNull_choice (choices : List (String × α)) (otherwise : Option α) :
    (choice choices otherwise).RefusesNull := nofun

/-- A value of several forms round-trips if what is written for it has one of them. -/
theorem roundTrips_oneOf {forms : Json → Option α}
    (hforms : ∀ {v x}, Canonical depth v → forms v = some x →
      Canonical depth (write x) ∧ forms (write x) = some x) (type : String) :
    (oneOf type forms).RoundTrips depth write := by
  intro s x rest hread hdoubles after hafter
  obtain ⟨⟨v, behind⟩, hv, hread⟩ := bind_eq_ok.mp hread
  dsimp only at hread
  split at hread
  · next y hy =>
      cases hread
      obtain ⟨hwritten, hform⟩ := hforms (canonical_of_value hv) hy
      refine bind_eq_ok.mpr ⟨_, hwritten.reads hdoubles after hafter, ?_⟩
      dsimp only
      rw [hform]
      rfl
  · exact nomatch hread

theorem refusesNull_oneOf {forms : Json → Option α} (hforms : forms .null = none)
    (type : String) : (oneOf type forms).RefusesNull := by
  intro depth s x rest hread
  obtain ⟨⟨v, behind⟩, hv, hread⟩ := bind_eq_ok.mp hread
  obtain ⟨nested, hvalue⟩ := exists_valueWith depth
  rw [hvalue] at hv
  obtain ⟨after, -, hv⟩ := bind_eq_ok.mp hv
  cases hv
  dsimp only at hread
  rw [hforms] at hread
  exact nomatch hread

end Reader

end Json

end ChartCompiler
