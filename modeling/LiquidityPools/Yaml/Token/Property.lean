import LiquidityPools.Number.Decimal
import LiquidityPools.Text.Hexadecimal
import LiquidityPools.Yaml.Scalar.Literal
import LiquidityPools.Yaml.Token

/-!
Tokens that say something about a node or a document: anchors, references to them, tags, and
directives. Each is read behind its indicator, together with what has to follow it.
-/

namespace LiquidityPools.Yaml

def name? (text : List Char) : Option (String × List Char) :=
  let name := text.takeWhile isName
  if name.isEmpty then none else some (String.ofList name, text.dropWhile isName)

def anchorName? (text : List Char) : Option (String × List Char) := do
  let (name, rest) ← name? text
  let ends :=
    endsWord rest || rest.head?.any ['?', ':', ',', ']', '\x7d', '%', '@', '\x60'].contains
  if ends then pure (name, rest) else none

section Tags

def handleChars (text : List Char) : List Char × List Char :=
  (text.takeWhile isName, text.dropWhile isName)

def handle? : List Char → Option (String × List Char)
  | '!' :: rest =>
    if rest.head? == some ' ' then some ("!", rest)
    else
      let (name, rest) := handleChars rest
      match rest with
      | '!' :: rest => some (String.ofList ('!' :: name ++ ['!']), rest)
      | _ => none
  | _ => none

def isTagChar (c : Char) : Bool := c.isAlphanum || "-;/?:@&=+$,_.!~*'()[]".toList.contains c

/-- The bytes that pairs of digits behind percent signs write, and what follows them. -/
def percentBytes : List Char → Option (List UInt8 × List Char)
  | '%' :: high :: low :: rest => do
    let h ← Text.hexValue? high
    let l ← Text.hexValue? low
    let (data, rest) ← percentBytes rest
    pure (UInt8.ofNat (16 * h + l) :: data, rest)
  | '%' :: _ => none
  | text => some ([], text)

def tagChars : (bound : Nat) → List Char → Option (List Char × List Char)
  | 0, text => some ([], text)
  | _, [] => some ([], [])
  | bound + 1, c :: rest =>
    if c == '%' then do
      let (data, rest) ← percentBytes (c :: rest)
      let s ← String.fromUTF8? (ByteArray.mk data.toArray)
      let (more, rest) ← tagChars bound rest
      pure (s.toList ++ more, rest)
    else if isTagChar c then do
      let (more, rest) ← tagChars bound rest
      pure (c :: more, rest)
    else some ([], c :: rest)

def tagText? (text : List Char) : Option (String × List Char) := do
  let (chars, rest) ← tagChars text.length text
  if chars.isEmpty then none else pure (String.ofList chars, rest)

/-- The tag behind an exclamation mark: in angle brackets, with nothing behind the mark, or with a
handle. -/
def tag? (text : List Char) : Option (WrittenTag × List Char) := do
  let (tag, rest) ← match text with
    | '<' :: rest => do
      match ← tagText? rest with
      | (suffix, '>' :: rest) => pure (WrittenTag.mk none suffix, rest)
      | _ => none
    | _ =>
      if endsWord text then pure (WrittenTag.mk none "!", text)
      else do
        let word := text.takeWhile fun c => !endsField [c]
        let (handle, rest) ← if word.contains '!' then handle? ('!' :: text) else pure ("!", text)
        let (suffix, rest) ← tagText? rest
        pure (WrittenTag.mk (some handle) suffix, rest)
  if endsField rest then pure (tag, rest) else none

end Tags

section Directives

def skipSpaces (text : List Char) : List Char := text.dropWhile (· == ' ')

def number? (text : List Char) : Option (Nat × List Char) :=
  let digits := text.takeWhile Char.isDigit
  if digits.isEmpty then none
  else some (Number.natOf digits, text.dropWhile Char.isDigit)

def version? (text : List Char) : Option (Directive × List Char) := do
  let (major, rest) ← number? (skipSpaces text)
  match rest with
  | '.' :: rest =>
    let (_, rest) ← number? rest
    if endsField rest then pure (.version major, rest) else none
  | _ => none

def handleDirective? (text : List Char) : Option (Directive × List Char) := do
  let (handle, rest) ← handle? (skipSpaces text)
  if rest.head? ≠ some ' ' then none
  let (stem, rest) ← tagText? (skipSpaces rest)
  if endsField rest then pure (.handle handle stem, rest) else none

def directive? (text : List Char) : Option (Directive × List Char) := do
  let (name, rest) ← name? text
  if !endsField rest then none
  let (directive, rest) ←
    if name = "YAML" then version? rest
    else if name = "TAG" then handleDirective? rest
    else pure (.other, rest.dropWhile (!isBreak ·))
  pure (directive, ← lineEnd? rest)

end Directives

end LiquidityPools.Yaml
