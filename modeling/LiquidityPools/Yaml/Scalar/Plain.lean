import LiquidityPools.Yaml.Character

/-!
Plain scalars, which no quotes surround. One ends before a colon that introduces a value and before
a comment; in the flow style it ends also before the characters that the style is written with. It
may go on over further lines, as long as they are indented and bound no document.
-/

namespace LiquidityPools.Yaml

def flowEnds : List Char := [',', '?', '[', ']', '\x7b', '\x7d']

def introduces (flow : Bool) (text : List Char) : Bool :=
  endsWord text || (flow && text.head?.any [',', '[', ']', '\x7b', '\x7d'].contains)

def plainWord (flow : Bool) : List Char → List Char × List Char
  | [] => ([], [])
  | c :: rest =>
    if isSpace c || isBreak c || (c == ':' && introduces flow rest) || (flow && flowEnds.contains c)
    then ([], c :: rest)
    else
      let (word, rest) := plainWord flow rest
      (c :: word, rest)

def indicators : List Char :=
  [',', '[', ']', '\x7b', '\x7d', '#', '&', '*', '!', '|', '>', '\'', '"', '%', '@', '\x60']

def startsPlain (flow : Bool) : List Char → Bool
  | [] => false
  | c :: rest =>
    if isSpace c || isBreak c || indicators.contains c then false
    else if c == '-' || ((c == '?' || c == ':') && !flow) then !endsWord rest
    else c != '?' && c != ':'

structure Gap where
  fill : List Char
  crossesLine : Bool
  column : Nat
  rest : List Char

/-- The breaks of empty lines, the column of the first character after them, and what follows; no
breaks if a document ends here. -/
def emptyLines : (column : Nat) → List Char → Option (List Char) × Nat × List Char
  | column, [] => (some [], column, [])
  | column, c :: rest =>
    if column = 0 && boundsDocument (c :: rest) then (none, 0, c :: rest)
    else if c == ' ' then emptyLines (column + 1) rest
    else if isBreak c then
      let (breaks, after) := emptyLines 0 rest
      (breaks.map (breakChar c :: ·), after)
    else (some [], column, c :: rest)

def gapAt (text : List Char) : Gap :=
  let spaces := text.takeWhile (· == ' ')
  match text.dropWhile (· == ' ') with
  | [] => ⟨spaces, false, 0, []⟩
  | c :: rest =>
    if isBreak c then
      let (breaks, column, rest) := emptyLines 0 rest
      ⟨(breaks.map (folded c)).getD [], true, column, rest⟩
    else ⟨spaces, false, 0, c :: rest⟩

def Gap.isLast (flow : Bool) (indent : Nat) (gap : Gap) : Bool :=
  gap.fill.isEmpty || gap.rest.head? == some '#' ||
    (!flow && gap.crossesLine && gap.column < indent)

/-- The words from here on with the gaps between them, whether a line was crossed after the last
one, and what follows. -/
def plainWords (flow : Bool) (indent : Nat) : (bound : Nat) → Gap → List Char × Bool × List Char
  | 0, before => ([], before.crossesLine, before.rest)
  | bound + 1, before =>
    let (word, after) := plainWord flow before.rest
    if word.isEmpty then ([], before.crossesLine, before.rest)
    else
      let gap := gapAt after
      if gap.isLast flow indent then (before.fill ++ word, gap.crossesLine, gap.rest)
      else
        let (more, ending) := plainWords flow indent bound gap
        (before.fill ++ word ++ more, ending)

def plainScalar (flow : Bool) (indent : Nat) (text : List Char) : List Char × Bool × List Char :=
  plainWords flow indent (text.length + 1) ⟨[], false, 0, text⟩

example :
    plainScalar false 1 "a b\n  c: d".toList = ("a b c".toList, false, ": d".toList) := by decide
example : plainScalar false 1 "a\n\nb".toList = ("a".toList, true, "b".toList) := by decide

end LiquidityPools.Yaml
