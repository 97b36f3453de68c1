import ChartCompiler.Expression.Position

/-!
# Dash patterns

A dash style is a name or a list of numbers, separated by blanks or by a comma that may have blanks
around it.
-/

namespace ChartCompiler

namespace Dash

/-- The text behind a separator: a comma with blanks around it, or at least one blank. -/
def afterSeparator? (s : List Char) : Option (List Char) :=
  match s, skipBlanks s with
  | _, ',' :: rest => some (skipBlanks rest)
  | c :: _, rest => if isBlank c then some rest else none
  | [], _ => none

/-- The numbers that follow, each behind a separator, and the text behind the last. A separator that
no number follows is left standing. Each round takes a character of `bound`. -/
def scanMore? : (bound : List Char) → List Char → Option (List Float × List Char)
  | [], s => some ([], s)
  | _ :: bound, s =>
      match afterSeparator? s with
      | none => some ([], s)
      | some next =>
          match Literal.scan next with
          | .absent => some ([], s)
          | .broken => none
          | .found value rest =>
              (scanMore? bound rest).map fun (values, rest) => (value :: values, rest)

/-- The numbers at the start of a text, at least one, and the text behind them. -/
def scan? (text : List Char) : Option (List Float × List Char) :=
  match Literal.scan (trim text) with
  | .found value rest =>
      (scanMore? rest rest).map fun (values, rest) => (value :: values, rest)
  | _ => none

/-- The pattern that a name stands for. Of the characters whose lower case is an ASCII letter of
these names all are ASCII letters themselves. -/
def named? (text : List Char) : Option (List Float) :=
  let name := lowerAscii (trim text)
  if name = "dashed".toList ∨ name = "dash".toList then some [6, 4]
  else if name = "dotted".toList ∨ name = "dot".toList then some [2, 3]
  else if name = "dashdot".toList then some [6, 3, 2, 3]
  else none

def parse? (text : List Char) : Option (List Float) :=
  match scan? text with
  | some (values, []) => some values
  | _ => none

end Dash

/-- The lengths of dashes and gaps in turn, if the style gives any. -/
def StrokeDash.pattern? : StrokeDash → Option (List Float)
  | .width w => if 0 < w then some [w, w] else none
  | .pattern lengths => if lengths.isEmpty then none else some lengths
  | .named text => (Dash.named? text.toList).or (Dash.parse? text.toList)

end ChartCompiler
