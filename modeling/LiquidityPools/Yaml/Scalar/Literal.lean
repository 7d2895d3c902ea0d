import LiquidityPools.Yaml.Character

/-!
Scalars that keep their lines: every line with the indentation of the first belongs to one. In the
folded style a break between two lines becomes a space, unless one of them starts with a space. A
header tells how breaks at the end are treated, and perhaps the indentation.
-/

namespace LiquidityPools.Yaml

inductive Chomping where
  | strip | clip | keep
  deriving DecidableEq

def chompingOf? : Char → Option Chomping
  | '-' => some .strip
  | '+' => some .keep
  | _ => none

def lineEnd? (text : List Char) : Option (List Char) :=
  let text := text.dropWhile (· == ' ')
  let text := if text.head? == some '#' then text.dropWhile (!isBreak ·) else text
  if endsLine text then some text.tail else none

/-- A digit other than zero that widens the indentation. -/
def widthOf? (c : Char) : Option Nat :=
  if c.isDigit && c != '0' then some (c.toNat - '0'.toNat) else none

def header? (text : List Char) : Option (Chomping × Option Nat × List Char) := do
  let (chomping, width, rest) := match text with
    | c :: d :: rest =>
      match chompingOf? c, widthOf? d, widthOf? c, chompingOf? d with
      | some k, some n, _, _ => (k, some n, rest)
      | _, _, some n, some k => (k, some n, rest)
      | some k, _, _, _ => (k, none, d :: rest)
      | _, _, some n, _ => (.clip, some n, d :: rest)
      | _, _, _, _ => (.clip, none, c :: d :: rest)
    | [c] =>
      match chompingOf? c, widthOf? c with
      | some k, _ => (k, none, [])
      | _, some n => (.clip, some n, [])
      | _, _ => (.clip, none, [c])
    | [] => (.clip, none, [])
  if endsField rest then
    let rest ← lineEnd? rest
    pure (chomping, width, rest)
  else none

/-- The breaks of the lines before the first one, how wide the widest of all these lines is, the
column reached, and what follows. -/
def leadingLines : (column widest : Nat) → List Char → List Char × Nat × Nat × List Char
  | column, widest, [] => ([], widest, column, [])
  | column, widest, c :: rest =>
    if c == ' ' then leadingLines (column + 1) (max widest (column + 1)) rest
    else if isBreak c then
      let (breaks, after) := leadingLines 0 widest rest
      (breakChar c :: breaks, after)
    else ([], widest, column, c :: rest)

def indentedLines (indent : Nat) : (column : Nat) → List Char → List Char × Nat × List Char
  | column, [] => ([], column, [])
  | column, c :: rest =>
    if c == ' ' && column < indent then indentedLines indent (column + 1) rest
    else if isBreak c then
      let (breaks, after) := indentedLines indent 0 rest
      (breakChar c :: breaks, after)
    else ([], column, c :: rest)

def startsSpaced (text : List Char) : Bool := text.head?.any isSpace

structure Body where
  text : List Char
  lastBreak : List Char
  breaks : List Char
  rest : List Char

def bodyLines (folds : Bool) (indent : Nat) :
    (bound : Nat) → (column : Nat) → (breaks : List Char) → List Char → Body
  | 0, _, breaks, text => ⟨[], [], breaks, text⟩
  | bound + 1, column, breaks, text =>
    if column ≠ indent || text.isEmpty then ⟨[], [], breaks, text⟩
    else
      let line := text.takeWhile (!isBreak ·)
      let after := text.dropWhile (!isBreak ·)
      let lastBreak := (after.head?.map breakChar).toList
      let (more, column, rest) := indentedLines indent 0 after.tail
      if column = indent && !rest.isEmpty then
        let joins := folds && lastBreak == ['\n'] && !startsSpaced text && !startsSpaced rest
        let joint := if !joins then lastBreak else if more.isEmpty then [' '] else []
        let body := bodyLines folds indent bound column more rest
        { body with text := breaks ++ line ++ joint ++ body.text }
      else ⟨breaks ++ line, lastBreak, more, rest⟩

def literalScalar? (folds : Bool) (least : Nat) (text : List Char) :
    Option (List Char × List Char) := do
  let (chomping, width, text) ← header? text
  let least := max least 1
  let (indent, breaks, column, rest) := match width with
    | some width =>
      let indent := least + width - 1
      (indent, indentedLines indent 0 text)
    | none =>
      let (breaks, widest, column, rest) := leadingLines 0 0 text
      (max least widest, breaks, column, rest)
  let body := bodyLines folds indent (text.length + 1) column breaks rest
  let ending := match chomping with
    | .strip => []
    | .clip => body.lastBreak
    | .keep => body.lastBreak ++ body.breaks
  pure (body.text ++ ending, body.rest)

end LiquidityPools.Yaml
