import ChartCompiler.Json.Reader

/-!
# Readers of simple types

Each reader looks at the first character to see what kind of value comes. A value of another kind is
read far enough to name it in the fault.
-/

namespace ChartCompiler.Json

/-- The fault of a value that is not of the wanted kind. Scalars are read to show them, so a spoilt
scalar has a fault of its own. -/
def refuse (wanted : String) (s : List Char) : Fault :=
  let named (found : Found) : Fault := .mismatch (.wrongType found wanted)
  let afterWord (found : Found) (rest : Except Fault (List Char)) : Fault :=
    match rest with
    | .ok _ => named found
    | .error fault => fault
  let number (read : Except Fault (Number × List Char)) : Fault :=
    match read with
    | .ok (n, _) => named (.number n)
    | .error fault => fault
  match s with
  | [] => .cutShort
  | 'n' :: rest => afterWord .null (word "ull".toList rest)
  | 't' :: rest => afterWord (.bool true) (word "rue".toList rest)
  | 'f' :: rest => afterWord (.bool false) (word "alse".toList rest)
  | '"' :: rest =>
      match stringRest rest with
      | .ok (text, _) => named (.string text)
      | .error fault => fault
  | '-' :: rest => number (unsignedNumber true rest)
  | '[' :: _ => named .array
  | '\x7b' :: _ => named .object
  | c :: rest => if c.isDigit then number (unsignedNumber false (c :: rest)) else .malformed

namespace Reader

/-- A string; `wanted` names it in faults. -/
def text (wanted : String) : Reader String := fun _ s =>
  match skipBlanks s with
  | '"' :: rest => stringRest rest
  | other => .error (refuse wanted other)

def string : Reader String := text "a string"

def bool : Reader Bool := fun _ s =>
  match skipBlanks s with
  | 't' :: rest => do return (true, ← word "rue".toList rest)
  | 'f' :: rest => do return (false, ← word "alse".toList rest)
  | other => .error (refuse "a boolean" other)

/-- A number of any form; `wanted` names it in faults. -/
def number (wanted : String) : Reader Number := fun _ s =>
  match skipBlanks s with
  | '-' :: rest => unsignedNumber true rest
  | c :: rest =>
      if c.isDigit then unsignedNumber false (c :: rest)
      else .error (refuse wanted (c :: rest))
  | [] => .error .cutShort

def float : Reader Float := fun depth s => do
  let (n, rest) ← number "f64" depth s
  return (n.toFloat, rest)

/-- An integer from zero up to, but not including, `bound`. -/
def natural (wanted : String) (bound : Nat) : Reader Nat := fun depth s => do
  match ← number wanted depth s with
  | (.integer n, rest) =>
      if 0 ≤ n ∧ n < bound then return (n.toNat, rest)
      else throw (.mismatch (.wrongValue (.number (.integer n)) wanted))
  | (.real x, _) => throw (.mismatch (.wrongType (.number (.real x)) wanted))

def natural64 : Reader Nat := natural "usize" (Nat.pow 2 64)

def natural32 : Reader Nat := natural "u32" (Nat.pow 2 32)

/-- Reads `null`, or a value of the given reader. -/
def orNull {α : Type} (reader : Reader α) : Reader (Option α) := fun depth s =>
  match skipBlanks s with
  | 'n' :: rest => do return (none, ← word "ull".toList rest)
  | other => do
      let (x, rest) ← reader depth other
      return (some x, rest)

def list {α : Type} (reader : Reader α) : Reader (List α) := fun depth s =>
  match skipBlanks s with
  | '[' :: rest =>
      match depth with
      | 0 => .error .malformed
      | depth + 1 => listRest (reader depth) rest
  | other => .error (refuse "a sequence" other)

/-- The name of the only member of an object whose brace is open. -/
def onlyName (s : List Char) : Except Fault (String × List Char) :=
  match skipBlanks s with
  | [] => .error .cutShort
  | '"' :: rest => stringRest rest
  | _ => .error .malformed

/-- One of several names, each with the value it stands for. The name stands in a string, or as the
only member of an object, with `null` for its value. A name that is not listed stands for
`otherwise`, if that is given. -/
def choice {α : Type} (choices : List (String × α)) (otherwise : Option α) : Reader α :=
  fun depth s =>
    let pick (name : String) : Except Fault α :=
      match (choices.lookup name).or otherwise with
      | some x => .ok x
      | none => .error (.mismatch (.unknownVariant name (choices.map Prod.fst)))
    match skipBlanks s with
    | [] => .error .cutShort
    | '"' :: rest => do
        let (name, rest) ← stringRest rest
        return (← pick name, rest)
    | '\x7b' :: rest =>
        if depth = 0 then .error .malformed
        else do
          let (name, rest) ← onlyName rest
          let x ← pick name
          let rest ← colon rest
          match skipBlanks rest with
          | 'n' :: rest => return (x, ← closeObject (← word "ull".toList rest))
          | other => throw (refuse "unit" other)
    | _ => .error .malformed

/-- A value that takes the first of several forms that it fits; `forms` gets it whole. -/
def oneOf {α : Type} (type : String) (forms : Json → Option α) : Reader α := fun depth s => do
  let (json, rest) ← value depth s
  match forms json with
  | some x => return (x, rest)
  | none => throw (.mismatch (.noForm type))

end Reader

end ChartCompiler.Json
