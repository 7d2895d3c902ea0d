import LiquidityPools.Yaml.Scalar.Plain
import LiquidityPools.Yaml.Scalar.Quoted
import LiquidityPools.Yaml.Token.Property

/-!
Splitting a YAML text into tokens. Indentation opens and closes blocks, each with a mark of its own.
What turns out to be a key only when its colon is reached gets its key mark afterwards, in front of
the token that it began with; for that it has to stand on one line and end within 1024 characters.
-/

namespace LiquidityPools.Yaml

structure Place where
  index : Nat := 0
  line : Nat := 0
  column : Nat := 0
  deriving DecidableEq, Repr

def Place.after (p : Place) (c : Char) : Place :=
  if isBreak c then ⟨p.index + 1, p.line + 1, 0⟩
  else ⟨p.index + 1, p.line, if c == '\ufeff' then p.column else p.column + 1⟩

/-- Where a key would begin, should a colon follow. -/
structure KeyStart where
  place : Place
  number : Nat
  /-- Nothing but a key may stand here. -/
  required : Bool
  deriving DecidableEq, Repr

def keyLimit : Nat := 1024

structure Lexer where
  text : List Char
  place : Place := {}
  tokens : List Token := []
  /-- The columns of the open blocks, the innermost first. -/
  indents : List Nat := []
  keyAllowed : Bool := true
  keyStart : Option KeyStart := none
  /-- The key starts around each open flow collection, the innermost first. -/
  outer : List (Option KeyStart) := []

namespace Lexer

def inFlow (l : Lexer) : Bool := !l.outer.isEmpty

def leastIndent (l : Lexer) : Nat :=
  match l.indents with
  | [] => 0
  | n :: _ => n + 1

def goTo (l : Lexer) (rest : List Char) : Lexer :=
  let passed := l.text.take (l.text.length - rest.length)
  { l with text := rest, place := passed.foldl Place.after l.place }

def add (l : Lexer) (t : Token) : Lexer := { l with tokens := l.tokens ++ [t] }

def addMark (l : Lexer) (m : Mark) : Lexer := l.add (.mark m)

def insert (l : Lexer) (number : Nat) (marks : List Mark) : Lexer :=
  { l with tokens := l.tokens.take number ++ marks.map .mark ++ l.tokens.drop number }

section Keys

def stillKey (p : Place) : Option KeyStart → Except Fault (Option KeyStart)
  | none => .ok none
  | some k =>
    if k.place.line ≠ p.line || k.place.index + keyLimit < p.index then
      if k.required then .error .yaml else .ok none
    else .ok (some k)

def dropLateKeys (l : Lexer) : Except Fault Lexer := do
  let keyStart ← stillKey l.place l.keyStart
  let outer ← l.outer.mapM (stillKey l.place)
  pure { l with keyStart, outer }

def dropKey (l : Lexer) : Except Fault Lexer :=
  if l.keyStart.any (·.required) then .error .yaml else .ok { l with keyStart := none }

/-- The next token may begin a key, if keys are allowed here. -/
def startKey (l : Lexer) : Except Fault Lexer :=
  if l.keyAllowed then do
    let l ← l.dropKey
    let required := !l.inFlow && l.indents.head? == some l.place.column
    pure { l with keyStart := some ⟨l.place, l.tokens.length, required⟩ }
  else .ok l

end Keys

section Blocks

def closeTo (l : Lexer) (keep : Nat → Bool) : Lexer :=
  if l.inFlow then l
  else
    let closed := l.indents.takeWhile (!keep ·)
    { l with
      indents := l.indents.drop closed.length
      tokens := l.tokens ++ closed.map fun _ => .mark .blockEnd }

def isDeeper (l : Lexer) (column : Nat) : Bool := l.leastIndent ≤ column

def openBlock (l : Lexer) (m : Mark) : Except Fault Lexer :=
  if l.inFlow then .ok l
  else if !l.keyAllowed then .error .yaml
  else if l.isDeeper l.place.column then
    .ok { l.addMark m with indents := l.place.column :: l.indents }
  else .ok l

end Blocks

section Steps

def leaveBlocks (l : Lexer) : Except Fault Lexer := do
  let l ← (l.closeTo fun _ => false).dropKey
  pure { l with keyAllowed := false }

def takeDirective (l : Lexer) (rest : List Char) : Except Fault Lexer := do
  let l ← l.leaveBlocks
  match directive? rest with
  | some (d, rest) => pure ((l.add (.directive d)).goTo rest)
  | none => .error .yaml

def takeBound (l : Lexer) (m : Mark) : Except Fault Lexer := do
  let l ← l.leaveBlocks
  pure ((l.addMark m).goTo (l.text.drop 3))

def openFlow (l : Lexer) (m : Mark) (rest : List Char) : Except Fault Lexer := do
  let l ← l.startKey
  let outer := l.keyStart :: l.outer
  pure ({ l.addMark m with keyAllowed := true, keyStart := none, outer }.goTo rest)

def closeFlow (l : Lexer) (m : Mark) (rest : List Char) : Except Fault Lexer := do
  let l ← l.dropKey
  match l.outer with
  | [] => .error .yaml
  | around :: outer =>
    pure ({ l.addMark m with keyAllowed := false, keyStart := around, outer }.goTo rest)

def takeComma (l : Lexer) (rest : List Char) : Except Fault Lexer := do
  let l ← l.dropKey
  pure ({ l.addMark .comma with keyAllowed := true }.goTo rest)

def takeItem (l : Lexer) (rest : List Char) : Except Fault Lexer := do
  let l ← (← l.openBlock .blockSequence).dropKey
  pure ({ l.addMark .item with keyAllowed := true }.goTo rest)

def takeKey (l : Lexer) (rest : List Char) : Except Fault Lexer := do
  let l ← (← l.openBlock .blockMap).dropKey
  pure ({ l.addMark .key with keyAllowed := !l.inFlow }.goTo rest)

/-- A colon: of the key that was begun, or else of one that was announced. -/
def takeValue (l : Lexer) (rest : List Char) : Except Fault Lexer :=
  match l.keyStart with
  | some k =>
    let opens := !l.inFlow && l.isDeeper k.place.column
    let l := { l with
      keyStart := none, keyAllowed := false
      indents := if opens then k.place.column :: l.indents else l.indents }
    let l := l.insert k.number (if opens then [.blockMap, .key] else [.key])
    .ok ((l.addMark .value).goTo rest)
  | none => do
    let l ← (← l.openBlock .blockMap).dropKey
    pure ({ l.addMark .value with keyAllowed := !l.inFlow }.goTo rest)

def takeNamed (l : Lexer) (token : Option (Token × List Char)) : Except Fault Lexer := do
  let l ← l.startKey
  match token with
  | some (t, rest) => pure ({ l.add t with keyAllowed := false }.goTo rest)
  | none => .error .yaml

def takeQuoted (l : Lexer) (quote : Char) (rest : List Char) : Except Fault Lexer := do
  let l ← l.startKey
  let (text, rest) ← quotedScalar quote rest
  pure ({ l.add (.scalar false text) with keyAllowed := false }.goTo rest)

def takeLiteral (l : Lexer) (folds : Bool) (rest : List Char) : Except Fault Lexer := do
  let l ← l.dropKey
  match literalScalar? folds l.leastIndent rest with
  | some (text, rest) => pure ({ l.add (.scalar false text) with keyAllowed := true }.goTo rest)
  | none => .error .yaml

/-- After a plain scalar a key may begin if a line was crossed. -/
def takePlain (l : Lexer) : Except Fault Lexer := do
  let l ← l.startKey
  let (text, crossed, rest) := plainScalar l.inFlow l.leastIndent l.text
  pure ({ l.add (.scalar true text) with keyAllowed := crossed }.goTo rest)

def skipped : (comment crossed : Bool) → List Char → Bool × List Char
  | _, crossed, [] => (crossed, [])
  | comment, crossed, c :: rest =>
    if isBreak c then skipped false true rest
    else if comment || c == ' ' then skipped comment crossed rest
    else if c == '#' then skipped true crossed rest
    else (crossed, c :: rest)

def toToken (l : Lexer) : Except Fault Lexer := do
  let text := if l.place.index = 0 && l.text.head? == some '\ufeff' then l.text.tail else l.text
  let (crossed, rest) := skipped false false text
  let l := { l with keyAllowed := l.keyAllowed || (crossed && !l.inFlow) }
  let l ← (l.goTo rest).dropLateKeys
  pure (l.closeTo (· ≤ l.place.column))

def takeAt (l : Lexer) (c : Char) (rest : List Char) : Except Fault Lexer :=
  let alone := l.inFlow || endsWord rest
  if c == '%' && l.place.column = 0 then l.takeDirective rest
  else if l.place.column = 0 && isMarker '-' l.text then l.takeBound .documentStart
  else if l.place.column = 0 && isMarker '.' l.text then l.takeBound .documentEnd
  else if c == '[' then l.openFlow .flowSequence rest
  else if c == '\x7b' then l.openFlow .flowMap rest
  else if c == ']' then l.closeFlow .flowSequenceEnd rest
  else if c == '\x7d' then l.closeFlow .flowMapEnd rest
  else if c == ',' then l.takeComma rest
  else if c == '-' && endsWord rest then l.takeItem rest
  else if c == '?' && alone then l.takeKey rest
  else if c == ':' && alone then l.takeValue rest
  else if c == '*' then
    l.takeNamed ((anchorName? rest).map fun (name, rest) => (.reference name, rest))
  else if c == '&' then
    l.takeNamed ((anchorName? rest).map fun (name, rest) => (.anchor name, rest))
  else if c == '!' then l.takeNamed ((tag? rest).map fun (t, rest) => (.tag t, rest))
  else if (c == '|' || c == '>') && !l.inFlow then l.takeLiteral (c == '>') rest
  else if c == '\'' || c == '"' then l.takeQuoted c rest
  else if startsPlain l.inFlow l.text then l.takePlain
  else .error .yaml

/-- What is known where the text breaks off. A token that might still turn out to begin a key is not
known yet, nor is what follows it. -/
def breakOff (l : Lexer) (fault : Fault) : List Token :=
  let starts := (l.keyStart :: l.outer).filterMap fun k => k.map (·.number)
  let known := starts.foldl min l.tokens.length
  l.tokens.take known ++ [.broken fault]

def run : (bound : Nat) → Lexer → List Token
  | 0, l => l.tokens
  | bound + 1, l =>
    match l.toToken with
    | .error fault => l.breakOff fault
    | .ok l =>
      match l.text with
      | [] =>
        match l.leaveBlocks with
        | .error fault => l.breakOff fault
        | .ok l => (l.addMark .textEnd).tokens
      | c :: rest =>
        match l.takeAt c rest with
        | .error fault => l.breakOff fault
        | .ok l => run bound l

end Steps

end Lexer

def tokensOf (text : List Char) : List Token := Lexer.run (text.length + 1) { text }

end LiquidityPools.Yaml
