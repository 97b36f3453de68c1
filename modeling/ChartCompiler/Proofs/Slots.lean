import ChartCompiler.Proofs.Grouping

/-!
# Groups that are found by slot

A pass over rows need not search its groups for every key. It can keep the slot
of each key's group in a hash map and use it as an index, which fails where the
groups have no such entry. `Slotted.Located` is what the map and the groups
have to agree on for that; every step keeps it. So no index fails, and the
groups are the ones that `Groups.add` fills.
-/

namespace ChartCompiler

namespace Groups

variable {α : Type}

theorem add_of_notMem {key : String} {groups : Groups α}
    (habsent : key ∉ groups.keys) (values : List α) :
    groups.add key values = groups ++ [(key, values)] := by
  induction groups with
  | nil => rfl
  | cons head rest ih =>
      obtain ⟨hhead, hrest⟩ := List.ne_and_not_mem_of_not_mem_cons habsent
      rw [add, if_neg (Ne.symm hhead), ih hrest]
      rfl

/-- Adding to a key that has one entry changes this entry. -/
theorem add_eq_set {key : String} {groups : Groups α} {slot : Nat} {old : List α}
    (hentry : groups[slot]? = some (key, old))
    (hfirst : ∀ i other, groups[i]? = some (key, other) → i = slot) (values : List α) :
    groups.add key values = groups.set slot (key, old ++ values) := by
  induction groups generalizing slot with
  | nil => exact nomatch hentry
  | cons head rest ih =>
      obtain ⟨other, found⟩ := head
      cases slot with
      | zero =>
          obtain ⟨rfl, rfl⟩ := Prod.mk.inj (Option.some.inj hentry)
          rw [add, if_pos rfl]
          rfl
      | succ slot =>
          have hother : other ≠ key := fun hsame =>
            Nat.succ_ne_zero slot (hfirst 0 found (hsame ▸ rfl)).symm
          have hrest := @ih slot hentry fun i values hi =>
            Nat.succ.inj (hfirst (i + 1) values hi)
          rw [add, if_neg hother, hrest]
          rfl

theorem add_add (key : String) (first second : List α) (groups : Groups α) :
    (groups.add key first).add key second = groups.add key (first ++ second) := by
  induction groups with
  | nil => simp [add]
  | cons head rest ih =>
      by_cases hsame : head.1 = key
      · simp [add, hsame]
      · simp [add, hsame, ih]

end Groups

structure Slotted (α : Type) where
  groups : Groups α
  slots : Std.HashMap String Nat

namespace Slotted

variable {α β : Type}

def empty : Slotted α :=
  ⟨[], ∅⟩

/-- One more group, in the slot at the end. -/
def register (key : String) (values : List α) (table : Slotted α) : Slotted α where
  groups := table.groups ++ [(key, values)]
  slots := table.slots.insert key table.groups.length

/-- The slot of a key, which gets an empty group if it has none. -/
def slotFor (key : String) (table : Slotted α) : Slotted α × Nat :=
  match table.slots[key]? with
  | some slot => (table, slot)
  | none =>
      let wider := table.register key []
      (wider, wider.groups.length - 1)

/-- One more value in the group of a slot, if there is such a group. -/
def push? (slot : Nat) (value : α) (table : Slotted α) : Option (Slotted α) := do
  let (key, values) ← table.groups[slot]?
  return { table with groups := table.groups.set slot (key, values ++ [value]) }

/-- The map and the groups agree on where each key is. -/
structure Located (table : Slotted α) : Prop where
  /-- The slot of a key names the entry of this key. -/
  entry : ∀ {key : String} {slot : Nat}, table.slots[key]? = some slot →
    ∃ values, table.groups[slot]? = some (key, values)
  /-- The map knows every entry. -/
  slot : ∀ {key : String} {slot : Nat} {values : List α},
    table.groups[slot]? = some (key, values) → table.slots[key]? = some slot

theorem located_empty : (empty : Slotted α).Located where
  entry hslot := by simp [empty] at hslot
  slot hentry := nomatch hentry

namespace Located

variable {table : Slotted α} (h : table.Located)
include h

theorem notMem_keys {key : String} (hnew : table.slots[key]? = none) :
    key ∉ table.groups.keys := by
  intro hkey
  obtain ⟨⟨found, values⟩, hmem, rfl⟩ := List.mem_map.mp hkey
  obtain ⟨slot, hentry⟩ := List.getElem?_of_mem hmem
  rw [h.slot hentry] at hnew
  cases hnew

/-- The values of a key with a slot are added to the entry of this slot. -/
theorem add_eq_set {key : String} {slot : Nat} {old : List α}
    (hentry : table.groups[slot]? = some (key, old)) (values : List α) :
    table.groups.add key values = table.groups.set slot (key, old ++ values) := by
  refine Groups.add_eq_set hentry (fun i other hi => ?_) values
  have hsame := (h.slot hi).symm.trans (h.slot hentry)
  exact Option.some.inj hsame

theorem register {key : String} (hnew : table.slots[key]? = none) (values : List α) :
    (table.register key values).Located := by
  have hlength : ∀ {slot : Nat} {entry}, table.groups[slot]? = some entry →
      slot < table.groups.length := fun hi => (List.getElem?_eq_some_iff.mp hi).1
  constructor
  · intro other slot hslot
    rw [Slotted.register, Std.HashMap.getElem?_insert] at hslot
    by_cases hsame : key = other
    · rw [if_pos (beq_iff_eq.mpr hsame)] at hslot
      obtain rfl := Option.some.inj hslot
      exact ⟨values, by rw [← hsame]; exact List.getElem?_concat_length⟩
    · rw [if_neg (fun heq => hsame (beq_iff_eq.mp heq))] at hslot
      obtain ⟨found, hentry⟩ := h.entry hslot
      refine ⟨found, ?_⟩
      rw [Slotted.register, List.getElem?_append_left (hlength hentry)]
      exact hentry
  · intro other slot found hentry
    rw [Slotted.register, Std.HashMap.getElem?_insert]
    rw [Slotted.register] at hentry
    by_cases hold : slot < table.groups.length
    · rw [List.getElem?_append_left hold] at hentry
      have hslot := h.slot hentry
      rw [if_neg ?_]
      · exact hslot
      · intro heq
        rw [← beq_iff_eq.mp heq, hnew] at hslot
        cases hslot
    · rw [List.getElem?_append_right (Nat.le_of_not_lt hold), List.getElem?_singleton] at hentry
      split_ifs at hentry with hlast
      obtain ⟨rfl, rfl⟩ := Prod.mk.inj (Option.some.inj hentry)
      rw [if_pos (beq_self_eq_true key)]
      congr 1
      omega

/-- A value finds the entry of its key, and goes where `Groups.add` puts it. -/
theorem push {key : String} {slot : Nat} (hslot : table.slots[key]? = some slot) (value : α) :
    ∃ next, table.push? slot value = some next ∧ next.Located ∧
      next.groups = table.groups.add key [value] := by
  obtain ⟨old, hentry⟩ := h.entry hslot
  have hlength := (List.getElem?_eq_some_iff.mp hentry).1
  refine ⟨_, by rw [push?, hentry]; rfl, ⟨?_, ?_⟩, (h.add_eq_set hentry [value]).symm⟩
  · intro other place hplace
    obtain ⟨found, hfound⟩ := h.entry hplace
    by_cases hsame : slot = place
    · subst hsame
      obtain ⟨rfl, -⟩ := Prod.mk.inj (Option.some.inj (hentry.symm.trans hfound))
      exact ⟨_, List.getElem?_set_self hlength⟩
    · exact ⟨found, (List.getElem?_set_ne hsame).trans hfound⟩
  · intro other place found hfound
    by_cases hsame : slot = place
    · subst hsame
      rw [List.getElem?_set_self hlength] at hfound
      obtain ⟨rfl, -⟩ := Prod.mk.inj (Option.some.inj hfound)
      exact hslot
    · rw [List.getElem?_set_ne hsame] at hfound
      exact h.slot hfound

/-- Looking up a slot leaves a group for the key, and the slot names it. -/
theorem slotFor (key : String) :
    (table.slotFor key).1.Located ∧
      (table.slotFor key).1.slots[key]? = some (table.slotFor key).2 ∧
      (table.slotFor key).1.groups = table.groups.add key [] := by
  unfold Slotted.slotFor
  cases hslot : table.slots[key]? with
  | some slot =>
      obtain ⟨old, hentry⟩ := h.entry hslot
      refine ⟨h, hslot, ?_⟩
      obtain ⟨hlength, hget⟩ := List.getElem?_eq_some_iff.mp hentry
      rw [h.add_eq_set hentry, List.append_nil, ← hget, List.set_getElem_self]
  | none =>
      refine ⟨h.register hslot [], ?_, (Groups.add_of_notMem (h.notMem_keys hslot) []).symm⟩
      simp [Slotted.register]

end Located

/-- A pass whose steps keep the map and the groups in agreement succeeds. -/
theorem foldlM_located (step : Slotted α → β → Option (Slotted α))
    (next : Groups α → β → Groups α)
    (hstep : ∀ table : Slotted α, table.Located → ∀ item, ∃ after,
      step table item = some after ∧ after.Located ∧ after.groups = next table.groups item)
    (items : List β) {table : Slotted α} (h : table.Located) :
    ∃ after, items.foldlM step table = some after ∧ after.Located ∧
      after.groups = items.foldl next table.groups := by
  induction items generalizing table with
  | nil => exact ⟨table, rfl, h, rfl⟩
  | cons item rest ih =>
      obtain ⟨after, hafter, hlocated, hgroups⟩ := hstep table h item
      obtain ⟨last, hlast, hend, hfold⟩ := ih hlocated
      refine ⟨last, ?_, hend, ?_⟩
      · rw [List.foldlM_cons, hafter]
        exact hlast
      · rw [hfold, hgroups, List.foldl_cons]

end Slotted

namespace Checked

/-- Enters a row: its label gets a group, and its number, if it has one, goes
into the group of the label's slot. -/
def enterNumber (x y : String) (table : Slotted Float) (row : Row) : Option (Slotted Float) :=
  match row.label? x with
  | none => some table
  | some label =>
      let (table, slot) := table.slotFor label
      match row.number? y with
      | none => some table
      | some value => table.push? slot value

/-- The numbers of field `y` by label of field `x`, found by slot. -/
def groupValues (rows : Table) (x y : String) : Option (Groups Float) :=
  (rows.foldlM (enterNumber x y) .empty).map Slotted.groups

/-- Enters a row into the group of its key's slot, or into a new group. -/
def enterRow (field : String) (table : Slotted Row) (row : Row) : Option (Slotted Row) :=
  let key := (row.label? field).getD Table.emptyKey
  match table.slots[key]? with
  | some slot => table.push? slot row
  | none => some (table.register key [row])

/-- The rows split by the label of a field, found by slot. -/
def partition (rows : Table) (field : String) : Option (Groups Row) :=
  (rows.foldlM (enterRow field) .empty).map Slotted.groups

theorem enterNumber_located (x y : String) {table : Slotted Float} (h : table.Located) (row : Row) :
    ∃ after, enterNumber x y table row = some after ∧ after.Located ∧
      after.groups =
        match row.label? x with
        | none => table.groups
        | some label => table.groups.add label (row.number? y).toList := by
  unfold enterNumber
  cases row.label? x with
  | none => exact ⟨table, rfl, h, rfl⟩
  | some label =>
      obtain ⟨hwider, hslot, hgroups⟩ := h.slotFor label
      cases row.number? y with
      | none => exact ⟨_, rfl, hwider, hgroups⟩
      | some value =>
          obtain ⟨after, hafter, hlocated, hadded⟩ := hwider.push hslot value
          refine ⟨after, hafter, hlocated, ?_⟩
          rw [hadded, hgroups, Groups.add_add]
          rfl

theorem enterRow_located (field : String) {table : Slotted Row} (h : table.Located) (row : Row) :
    ∃ after, enterRow field table row = some after ∧ after.Located ∧
      after.groups = table.groups.add ((row.label? field).getD Table.emptyKey) [row] := by
  unfold enterRow
  dsimp only
  cases hslot : table.slots[(row.label? field).getD Table.emptyKey]? with
  | some slot => exact h.push hslot row
  | none =>
      exact ⟨_, rfl, h.register hslot [row],
        (Groups.add_of_notMem (h.notMem_keys hslot) [row]).symm⟩

/-- Every slot that grouping uses names an entry. -/
@[simp]
theorem groupValues_eq (rows : Table) (x y : String) :
    groupValues rows x y = some (rows.groupValues x y) := by
  obtain ⟨last, hlast, -, hgroups⟩ := Slotted.foldlM_located (enterNumber x y)
    (fun groups row =>
      match row.label? x with
      | none => groups
      | some label => groups.add label (row.number? y).toList)
    (fun _ => enterNumber_located x y) rows Slotted.located_empty
  rw [groupValues, hlast, Option.map_some, hgroups]
  rfl

/-- Every slot that splitting uses names an entry. -/
@[simp]
theorem partition_eq (rows : Table) (field : String) :
    partition rows field = some (rows.partition field) := by
  obtain ⟨last, hlast, -, hgroups⟩ := Slotted.foldlM_located (enterRow field)
    (fun groups row => groups.add ((row.label? field).getD Table.emptyKey) [row])
    (fun _ => enterRow_located field) rows Slotted.located_empty
  rw [partition, hlast, Option.map_some, hgroups]
  rfl

end Checked

end ChartCompiler
