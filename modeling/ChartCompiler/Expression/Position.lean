import ChartCompiler.Decimal.Numeral
import ChartCompiler.Spec.Basic
import ChartCompiler.Text.Blank

/-!
# Positions on a chart

A coordinate is a number of pixels, a percentage or a keyword:

    blanks number blanks % blanks | blanks keyword blanks | blanks number blanks

A number is a numeral, or `nan` or `inf` in any case.
-/

namespace ChartCompiler

/-- What stands at the start of a text where a number is wanted. -/
inductive Literal where
  | absent
  /-- A numeral whose exponent has no digits. No other reading is tried. -/
  | broken
  | found (value : Float) (rest : List Char)

/-- The rest of a text behind a word that it begins with in any case. -/
def afterWord? (word : String) (s : List Char) : Option (List Char) :=
  let size := word.length
  if lowerAscii (s.take size) = word.toList then some (s.drop size) else none

def Literal.scan (s : List Char) : Literal :=
  match Numeral.scan s with
  | .found numeral rest => .found numeral.value rest
  | .broken => .broken
  | .absent =>
      match afterWord? "nan" s, afterWord? "inf" s with
      | some rest, _ => .found (0.0 / 0.0) rest
      | none, some rest => .found infinity rest
      | none, none => .absent

/-- The number at the start of a text, with the blanks on both sides of it. -/
def Literal.scanSpaced (s : List Char) : Literal :=
  match scan (skipBlanks s) with
  | .found value rest => .found value (skipBlanks rest)
  | other => other

/-- Alignments that stand in for a coordinate. -/
inductive Keyword where
  | center
  | middle
  | left
  | right
  | top
  | bottom
  deriving Repr, DecidableEq

namespace Keyword

def all : List Keyword :=
  [center, middle, left, right, top, bottom]

def name : Keyword → String
  | center => "center"
  | middle => "middle"
  | left => "left"
  | right => "right"
  | top => "top"
  | bottom => "bottom"

def scan? (s : List Char) : Option (Keyword × List Char) :=
  all.findSome? fun k => (afterWord? k.name s).map fun rest => (k, rest)

end Keyword

/-- A coordinate that has been understood. -/
inductive Position where
  | pixels (value : Float)
  | percent (value : Float)
  | keyword (keyword : Keyword)

namespace Position

def scan? (s : List Char) : Option (Position × List Char) :=
  match Literal.scanSpaced s with
  | .broken => none
  | .found value ('%' :: rest) => some (.percent value, rest)
  | .found value rest => some (.pixels value, rest)
  | .absent => (Keyword.scan? (skipBlanks s)).map fun (k, rest) => (.keyword k, skipBlanks rest)

def parse? (s : List Char) : Option Position :=
  match scan? (skipBlanks s) with
  | some (position, rest) => if (skipBlanks rest).isEmpty then some position else none
  | none => none

end Position

def Coord.position? : Coord → Option Position
  | .pixels x => some (.pixels x)
  | .expression s => Position.parse? s.toList

end ChartCompiler
