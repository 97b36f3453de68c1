import ChartCompiler.Json.Typed

/-!
# Reading records

A `Record α` says how the fields of a structure are read. It is put together from single fields as
an applicative functor, in the order in which the structure declares them:

    Point.mk <$> Record.required "x" Reader.float <*> Record.required "y" Reader.float

A record is written as an object, whose members may come in any order and whose unknown members are
passed over, or as the list of its fields in order, from which fields with a default may be missing
at the end.
-/

namespace ChartCompiler.Json

/-- One field of a record under construction. -/
structure Slot (σ : Type) where
  name : String
  isFilled : σ → Bool
  fill : σ → Reader σ

namespace Slot

def inFirst {σ τ : Type} (slot : Slot σ) : Slot (σ × τ) where
  name := slot.name
  isFilled state := slot.isFilled state.1
  fill state depth s := do
    let (first, rest) ← slot.fill state.1 depth s
    return ((first, state.2), rest)

def inSecond {σ τ : Type} (slot : Slot τ) : Slot (σ × τ) where
  name := slot.name
  isFilled state := slot.isFilled state.2
  fill state depth s := do
    let (second, rest) ← slot.fill state.2 depth s
    return ((state.1, second), rest)

end Slot

/-- How a record is read: what is known of it before anything is read, its slots, and the record
made of what was read, or the name of the first field that is missing. -/
structure Record (α : Type) where
  State : Type
  start : State
  slots : List (Slot State)
  finish : State → Except String α

namespace Record

instance : Applicative Record where
  map f record := { record with finish := fun state => f <$> record.finish state }
  pure x := ⟨Unit, (), [], fun _ => .ok x⟩
  seq f x :=
    let left := f
    let right := x ()
    { State := left.State × right.State
      start := (left.start, right.start)
      slots := left.slots.map Slot.inFirst ++ right.slots.map Slot.inSecond
      finish := fun state => do
        let g ← left.finish state.1
        let y ← right.finish state.2
        return g y }

def slot {α : Type} (name : String) (reader : Reader α) : Slot (Option α) where
  name := name
  isFilled := Option.isSome
  fill _ depth s := do
    let (x, rest) ← reader depth s
    return (some x, rest)

def required {α : Type} (name : String) (reader : Reader α) : Record α where
  State := Option α
  start := none
  slots := [slot name reader]
  finish
    | some x => .ok x
    | none => .error name

/-- A field that stands for `default` where it is not given. -/
def withDefault {α : Type} (name : String) (reader : Reader α) (default : α) : Record α where
  State := Option α
  start := none
  slots := [slot name reader]
  finish state := .ok (state.getD default)

/-- A field that may be `null` or left out. -/
def optional {α : Type} (name : String) (reader : Reader α) : Record (Option α) :=
  withDefault name reader.orNull none

/-- Reads one member into its slot. Each slot is filled once. -/
def member {σ : Type} (slots : List (Slot σ)) (depth : Nat) (state : σ) (s : List Char) :
    Except Fault (σ × List Char) := do
  let (name, rest) ← stringRest s
  match slots.find? (·.name = name) with
  | none =>
      let (_, rest) ← skip (← colon rest)
      return (state, rest)
  | some slot =>
      if slot.isFilled state then throw (.mismatch (.duplicateField name))
      slot.fill state depth (← colon rest)

/-- Reads items into the slots in order, as far as there are any. -/
def fillInOrder {σ : Type} (depth : Nat) :
    List (Slot σ) → (first : Bool) → σ → List Char → Except Fault (σ × List Char)
  | [], _, state, s => .ok (state, s)
  | slot :: slots, first, state, s =>
      match nextItem first s with
      | .error fault => .error fault
      | .ok none => .ok (state, s)
      | .ok (some item) =>
          match slot.fill state depth item with
          | .error fault => .error fault
          | .ok (state, rest) => fillInOrder depth slots false state rest

/-- Reads a record; `name` is the name of its type in faults. -/
def reader {α : Type} (name : String) (record : Record α) : Reader α := fun depth s =>
  match skipBlanks s with
  | '\x7b' :: rest =>
      match depth with
      | 0 => .error .malformed
      | depth + 1 => do
          let (state, rest) ←
            eachMember (member record.slots depth) true rest record.start rest
          match record.finish state with
          | .ok x => return (x, ← closeObject rest)
          | .error missing => throw (.mismatch (.missingField missing))
  | '[' :: rest =>
      match depth with
      | 0 => .error .malformed
      | depth + 1 => do
          let (state, rest) ← fillInOrder depth record.slots true record.start rest
          match record.finish state with
          | .ok x => return (x, ← closeList rest)
          | .error missing =>
              let length := record.slots.findIdx (·.name = missing)
              throw (.mismatch (.wrongLength length name record.slots.length))
  | other => .error (refuse ("struct " ++ name) other)

end Record

end ChartCompiler.Json
