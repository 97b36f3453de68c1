/-!
# White space

Two notions of white space: the four blank characters that separate tokens, and the white space of
Unicode that trimming removes.
-/

namespace ChartCompiler

/-- Space, tab, line feed or carriage return. -/
def isBlank (c : Char) : Bool :=
  c = ' ' || c = '\t' || c = '\n' || c = '\r'

def skipBlanks (s : List Char) : List Char :=
  s.dropWhile isBlank

/-- A character with the property `White_Space`. -/
def isWhiteSpace (c : Char) : Bool :=
  let code := c.toNat
  (0x09 ≤ code && code ≤ 0x0D) || code = 0x20 || code = 0x85 || code = 0xA0 || code = 0x1680 ||
    (0x2000 ≤ code && code ≤ 0x200A) || code = 0x2028 || code = 0x2029 || code = 0x202F ||
    code = 0x205F || code = 0x3000

/-- The text without white space at either end. -/
def trim (s : List Char) : List Char :=
  ((s.dropWhile isWhiteSpace).reverse.dropWhile isWhiteSpace).reverse

/-- Empty, or white space only. -/
def isBlankText (s : String) : Bool :=
  s.toList.all isWhiteSpace

end ChartCompiler
