import LiquidityPools.Text.CodeRange

/-!
Characters of a YAML text. Four of them end a line; of these the next-line character stands for a
line feed, while the line and the paragraph separator stand for themselves. A line that begins with
three hyphens or three points, which stand alone, bounds a document.
-/

namespace LiquidityPools.Yaml

def allowedRanges : List Text.CodeRange :=
  [(0x09, 0x0A), (0x0D, 0x0D), (0x20, 0x7E), (0x85, 0x85), (0xA0, 0xD7FF), (0xE000, 0xFFFD),
    (0x10000, 0x10FFFF)]

def isBreak (c : Char) : Bool := ['\n', '\u0085', '\u2028', '\u2029'].contains c

def breakChar (c : Char) : Char := if c == '\u0085' then '\n' else c

def isSpace (c : Char) : Bool := c == ' ' || c == '\t'

def endsWord : List Char → Bool
  | [] => true
  | c :: _ => isSpace c || isBreak c

def endsField : List Char → Bool
  | [] => true
  | c :: _ => c == ' ' || isBreak c

def endsLine : List Char → Bool
  | [] => true
  | c :: _ => isBreak c

def isName (c : Char) : Bool := c.isAlphanum || c == '-' || c == '_'

def isMarker (c : Char) (text : List Char) : Bool :=
  text.take 3 == [c, c, c] && endsWord (text.drop 3)

def boundsDocument (text : List Char) : Bool := isMarker '-' text || isMarker '.' text

def unifyBreaks : List Char → List Char
  | '\r' :: '\n' :: rest => '\n' :: unifyBreaks rest
  | c :: rest => (if c == '\r' then '\n' else c) :: unifyBreaks rest
  | [] => []

/-- A single line break inside a scalar becomes a space; of more, the first is dropped. A separator
is kept in any case. -/
def folded (first : Char) (more : List Char) : List Char :=
  if breakChar first ≠ '\n' then breakChar first :: more else if more.isEmpty then [' '] else more

end LiquidityPools.Yaml
