import ChartCompiler.Text.Blank
import ChartCompiler.Text.Hex

/-!
# Colours by hexadecimal digits

A colour code is `#` with six digits, a pair for each of red, green and blue, or with three, each of
which stands for itself twice.
-/

namespace ChartCompiler

structure Rgb where
  red : UInt8
  green : UInt8
  blue : UInt8
  deriving Repr, DecidableEq

namespace Rgb

def byte? (high low : Char) : Option UInt8 :=
  match hexValue? high, hexValue? low with
  | some high, some low => some (UInt8.ofNat (16 * high + low))
  | _, _ => none

def ofDigits? (r r' g g' b b' : Char) : Option Rgb :=
  match byte? r r', byte? g g', byte? b b' with
  | some red, some green, some blue => some ⟨red, green, blue⟩
  | _, _, _ => none

/-- The code of six digits at the start of a text, and the text behind it. -/
def scanSix? : List Char → Option (Rgb × List Char)
  | '#' :: r :: r' :: g :: g' :: b :: b' :: rest =>
      (ofDigits? r r' g g' b b').map fun color => (color, rest)
  | _ => none

def parseSix? (s : List Char) : Option Rgb :=
  match scanSix? s with
  | some (color, []) => some color
  | _ => none

def parseThree? : List Char → Option Rgb
  | ['#', r, g, b] => ofDigits? r r g g b b
  | _ => none

def parse? (s : List Char) : Option Rgb :=
  (parseSix? s).or (parseThree? s)

end Rgb

/-- A text that can name a colour. Only codes are checked; what other names mean is for the renderer
to know. -/
def isColorText (s : String) : Bool :=
  match trim s.toList with
  | [] => false
  | '#' :: rest => (Rgb.parse? ('#' :: rest)).isSome
  | _ => true

end ChartCompiler
