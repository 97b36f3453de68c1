import ChartCompiler.Json.Basic
import ChartCompiler.Text.Quoted

/-!
# JSON text

`compact` writes a value without blanks, `pretty` with one item to a line and two spaces to a level.
-/

namespace ChartCompiler.Json

/-- How one character is written inside a string. -/
def escapedChar (c : Char) : List Char :=
  match c with
  | '"' => ['\\', '"']
  | '\\' => ['\\', '\\']
  | '\x08' => ['\\', 'b']
  | '\x0c' => ['\\', 'f']
  | '\n' => ['\\', 'n']
  | '\r' => ['\\', 'r']
  | '\t' => ['\\', 't']
  | c =>
      if c.toNat < 0x20 then
        let digits := hexDigits c.toNat
        '\\' :: 'u' :: (List.replicate (4 - digits.length) '0' ++ digits)
      else [c]

def stringText (s : String) : List Char :=
  '"' :: (s.toList.flatMap escapedChar ++ ['"'])

mutual

/-- A value without blanks. -/
def compact : Json → List Char
  | .null => "null".toList
  | .bool b => (toString b).toList
  | .number n => n.text.toList
  | .string s => stringText s
  | .array items => '[' :: (compactItems items ++ [']'])
  | .object members => '\x7b' :: (compactMembers members ++ ['\x7d'])

def compactItems : List Json → List Char
  | [] => []
  | [item] => compact item
  | item :: next :: rest => compact item ++ ',' :: compactItems (next :: rest)

def compactMembers : List (String × Json) → List Char
  | [] => []
  | [(name, value)] => stringText name ++ ':' :: compact value
  | (name, value) :: next :: rest =>
      stringText name ++ ':' :: (compact value ++ ',' :: compactMembers (next :: rest))

end

/-- A line break and the blanks of a level. -/
def newLine (level : Nat) : List Char :=
  '\n' :: List.replicate (2 * level) ' '

mutual

/-- A value at a level of nesting, with its parts one level deeper. -/
def prettyAt (level : Nat) : Json → List Char
  | .null => "null".toList
  | .bool b => (toString b).toList
  | .number n => n.text.toList
  | .string s => stringText s
  | .array [] => ['[', ']']
  | .array (item :: rest) =>
      '[' :: (newLine (level + 1) ++ prettyAt (level + 1) item ++
        prettyItems (level + 1) rest ++ newLine level ++ [']'])
  | .object [] => ['\x7b', '\x7d']
  | .object ((name, value) :: rest) =>
      '\x7b' :: (newLine (level + 1) ++ stringText name ++ [':', ' '] ++
        prettyAt (level + 1) value ++ prettyMembers (level + 1) rest ++ newLine level ++ ['\x7d'])

/-- The items after the first, each after a comma on a line of its own. -/
def prettyItems (level : Nat) : List Json → List Char
  | [] => []
  | item :: rest => ',' :: (newLine level ++ prettyAt level item ++ prettyItems level rest)

/-- The members after the first, each after a comma on a line of its own. -/
def prettyMembers (level : Nat) : List (String × Json) → List Char
  | [] => []
  | (name, value) :: rest =>
      ',' :: (newLine level ++ stringText name ++ [':', ' '] ++ prettyAt level value ++
        prettyMembers level rest)

end

def pretty (value : Json) : List Char :=
  prettyAt 0 value

end ChartCompiler.Json
