import ChartCompiler.Json.Record
import ChartCompiler.Proofs.ReadBack.Readers

/-!
# Records that read back what they have read

A record is put together field by field, and so is the proof that it round-trips. While fields are
missing there is no structure to be written yet; `Record.RoundTrips` therefore speaks of the fields
read so far, of what has been made of them, and of the members that are written for them.
-/

namespace ChartCompiler

namespace Json

/-- The slots take the values of the members in order. -/
inductive Fills {σ : Type} (depth : Nat) :
    List (Slot σ) → σ → List (String × Json) → σ → Prop
  | done (state : σ) : Fills depth [] state [] state
  | more {slot : Slot σ} {slots : List (Slot σ)} {state after last : σ} {v : Json}
      {members : List (String × Json)} (isEmpty : slot.isFilled state = false)
      (head : (slot.fill state).Reads depth after v)
      (tail : Fills depth slots after members last) :
      Fills depth (slot :: slots) state ((slot.name, v) :: members) last

namespace Fills

variable {σ τ : Type} {depth : Nat} {slots : List (Slot σ)} {state after last : σ}
  {members : List (String × Json)}

theorem append {more : List (Slot σ)} {others : List (String × Json)}
    (h : Fills depth slots state members after) (hmore : Fills depth more after others last) :
    Fills depth (slots ++ more) state (members ++ others) last := by
  induction h with
  | done state => exact hmore
  | more isEmpty head _ ih => exact .more isEmpty head (ih hmore)

theorem inFirst (h : Fills depth slots state members last) (other : τ) :
    Fills depth (slots.map Slot.inFirst) (state, other) members (last, other) := by
  induction h with
  | done state => exact .done _
  | @more slot slots state after last v members isEmpty head _ ih =>
      exact .more isEmpty
        (fun rest hrest => bind_eq_ok.mpr ⟨_, head rest hrest, rfl⟩) ih

theorem inSecond (h : Fills depth slots state members last) (other : τ) :
    Fills depth (slots.map Slot.inSecond) (other, state) members (other, last) := by
  induction h with
  | done state => exact .done _
  | @more slot slots state after last v members isEmpty head _ ih =>
      exact .more isEmpty
        (fun rest hrest => bind_eq_ok.mpr ⟨_, head rest hrest, rfl⟩) ih

theorem find?_name {all : List (Slot σ)} (hnames : (all.map Slot.name).Nodup) {slot : Slot σ}
    (hslot : slot ∈ all) : all.find? (·.name = slot.name) = some slot := by
  induction all with
  | nil => exact nomatch hslot
  | cons head all ih =>
      obtain ⟨hhead, hall⟩ := List.nodup_cons.mp hnames
      rcases List.mem_cons.mp hslot with rfl | hmem
      · exact List.find?_cons_of_pos (by simp)
      · have hne : head.name ≠ slot.name := fun heq =>
          hhead (heq ▸ List.mem_map_of_mem hmem)
        rw [List.find?_cons_of_neg (by simpa using hne), ih hall hmem]

/-- Slots that take the members in order take them from the text of an object. -/
theorem steps {all : List (Slot σ)} (hnames : (all.map Slot.name).Nodup)
    (h : Fills depth slots state members last) (hall : ∀ slot ∈ slots, slot ∈ all) :
    Steps (Record.member all depth) state (members.map memberTail) last := by
  induction h with
  | done state => exact .done state
  | @more slot slots state after last v members isEmpty head _ ih =>
      obtain ⟨hslot, hslots⟩ := List.forall_mem_cons.mp hall
      refine .more (fun rest hrest => ?_) (ih hslots)
      rw [memberTail, List.append_assoc, List.cons_append]
      refine bind_eq_ok.mpr ⟨_, stringRest_stringTail slot.name _, ?_⟩
      dsimp only
      rw [find?_name hnames hslot]
      dsimp only
      rw [isEmpty]
      exact head rest hrest

end Fills

namespace Record

variable {α β γ δ : Type} {depth : Nat}

/-- The record makes this of the values of the members. -/
def Takes (record : Record α) (depth : Nat) (members : List (String × Json)) (x : α) : Prop :=
  ∃ last, Fills depth record.slots record.start members last ∧ record.finish last = .ok x

/-- Whatever is read into the slots, what is made of it has the property. -/
def Ensures (record : Record α) (depth : Nat) (P : α → Prop) : Prop :=
  ∃ I : record.State → Prop, I record.start ∧
    (∀ slot ∈ record.slots, ∀ {state s after rest}, I state →
      slot.fill state depth s = .ok (after, rest) → I after) ∧
    ∀ {state x}, I state → record.finish state = .ok x → P x

/-- What is read into the slots makes a value of some fields, and the members written for these
fields make the same value. -/
def RoundTrips (record : Record α) (depth : Nat) (value : β → α)
    (members : β → List (String × Json)) : Prop :=
  record.Ensures depth fun x => ∃ fields, value fields = x ∧
    ((object (members fields)).DoublesReadBack → record.Takes depth (members fields) x)

/-! ## What has been read into the slots -/

theorem member_invariant {record : Record α} {I : record.State → Prop}
    (hfill : ∀ slot ∈ record.slots, ∀ {state s after rest}, I state →
      slot.fill state depth s = .ok (after, rest) → I after)
    {state after : record.State} {s rest : List Char}
    (hstep : member record.slots depth state s = .ok (after, rest)) (h : I state) : I after := by
  obtain ⟨⟨name, behindName⟩, -, hstep⟩ := bind_eq_ok.mp hstep
  dsimp only at hstep
  split at hstep
  · obtain ⟨behindColon, -, hstep⟩ := bind_eq_ok.mp hstep
    obtain ⟨behindValue, -, hstep⟩ := bind_eq_ok.mp hstep
    cases hstep
    exact h
  · next slot hslot =>
      split at hstep
      · exact nomatch hstep
      obtain ⟨behindColon, -, hstep⟩ := bind_eq_ok.mp hstep
      exact hfill slot (List.mem_of_find?_eq_some hslot) h hstep

theorem fillInOrder_invariant {σ : Type} {I : σ → Prop} {slots : List (Slot σ)}
    (hfill : ∀ slot ∈ slots, ∀ {state s after rest}, I state →
      slot.fill state depth s = .ok (after, rest) → I after)
    {first : Bool} {state last : σ} {s rest : List Char}
    (hread : fillInOrder depth slots first state s = .ok (last, rest)) (h : I state) :
    I last := by
  induction slots generalizing first state s with
  | nil =>
      cases hread
      exact h
  | cons slot slots ih =>
      obtain ⟨hslot, hslots⟩ := List.forall_mem_cons.mp hfill
      unfold fillInOrder at hread
      split at hread
      · exact nomatch hread
      · cases hread
        exact h
      · split at hread
        · exact nomatch hread
        · next hstep => exact ih hslots hread (hslot h hstep)

/-- Both forms of a record, object and list, fill its slots and nothing else. -/
theorem Ensures.of_reader {record : Record α} {P : α → Prop} (h : record.Ensures depth P)
    {name : String} {s rest : List Char} {x : α}
    (hread : record.reader name (depth + 1) s = .ok (x, rest)) : P x := by
  obtain ⟨I, hstart, hfill, hfinish⟩ := h
  unfold reader at hread
  split at hread
  · obtain ⟨⟨state, behind⟩, heach, hread⟩ := bind_eq_ok.mp hread
    rw [eachMember_eq] at heach
    have hstate : I state := eachPart_invariant (member_invariant hfill) heach hstart
    dsimp only at hread
    split at hread
    · next hx =>
        obtain ⟨last, -, hread⟩ := bind_eq_ok.mp hread
        cases hread
        exact hfinish hstate hx
    · exact nomatch hread
  · obtain ⟨⟨state, behind⟩, heach, hread⟩ := bind_eq_ok.mp hread
    have hstate : I state := fillInOrder_invariant hfill heach hstart
    dsimp only at hread
    split at hread
    · next hx =>
        obtain ⟨last, -, hread⟩ := bind_eq_ok.mp hread
        cases hread
        exact hfinish hstate hx
    · exact nomatch hread
  · exact nomatch hread

/-- A record is read from the object of its members. -/
theorem Takes.reads {record : Record α} {members : List (String × Json)} {x : α}
    (h : record.Takes depth members x) (hnames : (record.slots.map Slot.name).Nodup)
    (name : String) : (record.reader name).Reads (depth + 1) x (.object members) := by
  intro rest _
  obtain ⟨last, hfills, hfinish⟩ := h
  rw [compact, List.cons_append, List.append_assoc]
  refine bind_eq_ok.mpr
    ⟨_, eachMember_compactMembers (hfills.steps hnames fun _ hslot => hslot) rest, ?_⟩
  dsimp only
  rw [hfinish]
  rfl

theorem refusesNull_reader (record : Record α) (name : String) :
    (record.reader name).RefusesNull := nofun

/-- A record round-trips as a reader if it does so in its fields. -/
theorem RoundTrips.reader {record : Record α} {value : β → α}
    {members : β → List (String × Json)} (h : record.RoundTrips depth value members)
    (hnames : (record.slots.map Slot.name).Nodup) {write : α → Json}
    (hwrite : ∀ fields, write (value fields) = .object (members fields)) (name : String) :
    (record.reader name).RoundTrips (depth + 1) write := by
  intro s x rest hread hdoubles
  obtain ⟨fields, rfl, htakes⟩ := h.of_reader hread
  rw [hwrite] at hdoubles ⊢
  exact (htakes hdoubles).reads hnames name

/-! ## Putting records together -/

theorem Takes.map {record : Record α} {members : List (String × Json)} {x : α}
    (h : record.Takes depth members x) (f : α → γ) : (f <$> record).Takes depth members (f x) := by
  obtain ⟨last, hfills, hfinish⟩ := h
  exact ⟨last, hfills, congrArg (f <$> ·) hfinish⟩

theorem Ensures.map {record : Record α} {P : α → Prop} (h : record.Ensures depth P) {f : α → γ}
    {Q : γ → Prop} (himp : ∀ x, P x → Q (f x)) : (f <$> record).Ensures depth Q := by
  obtain ⟨I, hstart, hfill, hfinish⟩ := h
  refine ⟨I, hstart, hfill, fun {state y} hstate hy => ?_⟩
  have hmap : f <$> record.finish state = .ok y := hy
  cases hx : record.finish state with
  | error missing =>
      rw [hx] at hmap
      exact nomatch hmap
  | ok x =>
      rw [hx] at hmap
      cases hmap
      exact himp x (hfinish hstate hx)

section Seq

variable {left : Record (α → γ)} {right : Record α}

theorem Takes.seq {members others : List (String × Json)} {f : α → γ} {x : α}
    (hf : left.Takes depth members f) (hx : right.Takes depth others x) :
    (left <*> right).Takes depth (members ++ others) (f x) := by
  obtain ⟨first, hfills, hfirst⟩ := hf
  obtain ⟨second, hfills', hsecond⟩ := hx
  exact ⟨(first, second), (hfills.inFirst right.start).append (hfills'.inSecond first),
    bind_eq_ok.mpr ⟨_, hfirst, bind_eq_ok.mpr ⟨_, hsecond, rfl⟩⟩⟩

/-- The two parts of a record are filled without regard to each other. -/
theorem Ensures.seq {P : (α → γ) → Prop} {Q : α → Prop} (hleft : left.Ensures depth P)
    (hright : right.Ensures depth Q) {R : γ → Prop} (himp : ∀ f x, P f → Q x → R (f x)) :
    (left <*> right).Ensures depth R := by
  obtain ⟨I, hstart, hfill, hfinish⟩ := hleft
  obtain ⟨J, hstart', hfill', hfinish'⟩ := hright
  refine ⟨fun state => I state.1 ∧ J state.2, ⟨hstart, hstart'⟩, ?_, ?_⟩
  · rintro slot hslot state s after rest ⟨hI, hJ⟩ hstep
    rcases List.mem_append.mp hslot with hslot | hslot
    · obtain ⟨inner, hinner, rfl⟩ := List.mem_map.mp hslot
      obtain ⟨⟨first, behind⟩, hfirst, hstep⟩ := bind_eq_ok.mp hstep
      cases hstep
      exact ⟨hfill inner hinner hI hfirst, hJ⟩
    · obtain ⟨inner, hinner, rfl⟩ := List.mem_map.mp hslot
      obtain ⟨⟨second, behind⟩, hsecond, hstep⟩ := bind_eq_ok.mp hstep
      cases hstep
      exact ⟨hI, hfill' inner hinner hJ hsecond⟩
  · rintro ⟨first, second⟩ y ⟨hI, hJ⟩ hy
    obtain ⟨f, hf, hy⟩ := bind_eq_ok.mp hy
    obtain ⟨x, hx, hy⟩ := bind_eq_ok.mp hy
    cases hy
    exact himp f x (hfinish hI hf) (hfinish' hJ hx)

end Seq

theorem RoundTrips.map {record : Record α} {value : β → α} {members : β → List (String × Json)}
    (h : record.RoundTrips depth value members) (f : α → γ) :
    (f <$> record).RoundTrips depth (fun fields => f (value fields)) members := by
  refine Ensures.map h ?_
  rintro _ ⟨fields, rfl, htakes⟩
  exact ⟨fields, rfl, fun hdoubles => (htakes hdoubles).map f⟩

theorem RoundTrips.seq {left : Record (α → γ)} {right : Record α} {value : β → α → γ}
    {values : δ → α} {members : β → List (String × Json)} {others : δ → List (String × Json)}
    (hleft : left.RoundTrips depth value members)
    (hright : right.RoundTrips depth values others) :
    (left <*> right).RoundTrips depth
      (fun fields : β × δ => value fields.1 (values fields.2))
      fun fields => members fields.1 ++ others fields.2 := by
  refine Ensures.seq hleft hright ?_
  rintro _ _ ⟨fields, rfl, htakes⟩ ⟨more, rfl, htakes'⟩
  refine ⟨(fields, more), rfl, fun hdoubles => ?_⟩
  rw [doublesReadBack_object, List.forall_mem_append, ← doublesReadBack_object,
    ← doublesReadBack_object] at hdoubles
  exact (htakes hdoubles.1).seq (htakes' hdoubles.2)

/-! ## Fields -/

section Fields

variable {reader : Reader α} {write : α → Json}

/-- A slot is empty or holds a value that is read back. -/
def Held (reader : Reader α) (depth : Nat) (write : α → Json) (state : Option α) : Prop :=
  ∀ x ∈ state, reader.Restores depth write x

theorem held_of_fill (h : reader.RoundTrips depth write) {name : String}
    {slot : Slot (Option α)} (hslot : slot ∈ [Record.slot name reader]) {state after : Option α}
    {s rest : List Char} (hstep : slot.fill state depth s = .ok (after, rest)) :
    Held reader depth write after := by
  cases List.mem_singleton.mp hslot
  obtain ⟨⟨x, behind⟩, hx, hstep⟩ := bind_eq_ok.mp hstep
  cases hstep
  rintro _ ⟨⟩
  exact h _ _ _ hx

theorem fills_slot {name : String} {x : α}
    (hx : reader.Restores depth write x) (hdoubles : (object [(name, write x)]).DoublesReadBack) :
    Fills depth [slot name reader] none [(name, write x)] (some x) := by
  have hwritten : (write x).DoublesReadBack :=
    doublesReadBack_object.mp hdoubles _ (List.mem_singleton_self _)
  exact .more rfl
    (fun rest hrest => bind_eq_ok.mpr ⟨_, hx hwritten rest hrest, rfl⟩) (.done _)

theorem roundTrips_required (h : reader.RoundTrips depth write) (name : String) :
    (required name reader).RoundTrips depth id fun x => [(name, write x)] := by
  refine ⟨Held reader depth write, nofun, fun slot hslot _ _ _ _ _ => held_of_fill h hslot, ?_⟩
  intro state x hstate hx
  cases state with
  | none => exact nomatch hx
  | some y =>
      cases hx
      exact ⟨x, rfl, fun hdoubles => ⟨_, fills_slot (hstate x rfl) hdoubles, rfl⟩⟩

/-- A default is written like any other value, and so has to be read back as well. -/
theorem roundTrips_withDefault (h : reader.RoundTrips depth write) (name : String) {default : α}
    (hdefault : reader.Restores depth write default) :
    (withDefault name reader default).RoundTrips depth id fun x => [(name, write x)] := by
  refine ⟨Held reader depth write, nofun, fun slot hslot _ _ _ _ _ => held_of_fill h hslot, ?_⟩
  intro state x hstate hx
  cases hx
  have hvalue : reader.Restores depth write (state.getD default) := by
    cases state with
    | none => exact hdefault
    | some y => exact hstate y rfl
  exact ⟨_, rfl, fun hdoubles => ⟨_, fills_slot hvalue hdoubles, rfl⟩⟩

theorem roundTrips_optional (h : reader.RoundTrips depth write) (hnull : reader.RefusesNull)
    (name : String) :
    (optional name reader).RoundTrips depth id fun x => [(name, Json.orNull write x)] :=
  roundTrips_withDefault (h.orNull hnull) name fun _ _ _ => rfl

end Fields

end Record

end Json

end ChartCompiler
