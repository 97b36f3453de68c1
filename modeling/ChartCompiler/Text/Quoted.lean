import ChartCompiler.Text.Hex
import ChartCompiler.Text.Hidden

/-!
# Quoted text in messages

A message shows a text between double quotes, with quotes, backslashes and characters that would not
be seen escaped.
-/

namespace ChartCompiler

/-- How one character is shown between double quotes. -/
def quotedChar (c : Char) : List Char :=
  match c with
  | '"' => ['\\', '"']
  | '\\' => ['\\', '\\']
  | '\n' => ['\\', 'n']
  | '\r' => ['\\', 'r']
  | '\t' => ['\\', 't']
  | '\x00' => ['\\', '0']
  | c => if isHidden c then '\\' :: 'u' :: '\x7b' :: (hexDigits c.toNat ++ ['\x7d']) else [c]

def quoted (s : String) : String :=
  String.ofList ('"' :: (s.toList.flatMap quotedChar ++ ['"']))

end ChartCompiler
