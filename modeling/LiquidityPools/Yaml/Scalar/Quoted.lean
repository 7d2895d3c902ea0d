import LiquidityPools.Fault
import LiquidityPools.Yaml.Character

/-!
Scalars in single or double quotes. They go on over further lines whatever their indentation, as
long as no line bounds a document. A single quote inside single quotes is written twice; inside
double quotes a backslash introduces an escape.
-/

namespace LiquidityPools.Yaml

def blankLines : (lineStart : Bool) → List Char → Except Fault (List Char × List Char)
  | _, [] => .ok ([], [])
  | lineStart, c :: rest =>
    if lineStart && boundsDocument (c :: rest) then .error .yaml
    else if isSpace c then blankLines false rest
    else if isBreak c then do
      let (breaks, rest) ← blankLines true rest
      pure (breakChar c :: breaks, rest)
    else .ok ([], c :: rest)

def quotedGap (text : List Char) : Except Fault (List Char × List Char) :=
  match text.dropWhile isSpace with
  | [] => .error .yaml
  | c :: rest =>
    if isBreak c then do
      let (breaks, rest) ← blankLines true rest
      pure (folded c breaks, rest)
    else .ok (text.takeWhile isSpace, c :: rest)

def singleQuoted : (bound : Nat) → List Char → Except Fault (List Char × List Char)
  | 0, _ | _, [] => .error .yaml
  | _ + 1, ['\''] => .ok ([], [])
  | bound + 1, c :: d :: rest => do
    if c == '\'' then
      if d == '\'' then
        let (text, rest) ← singleQuoted bound rest
        pure ('\'' :: text, rest)
      else pure ([], d :: rest)
    else
      let (start, rest) ←
        if isSpace c || isBreak c then quotedGap (c :: d :: rest) else pure ([c], d :: rest)
      let (text, rest) ← singleQuoted bound rest
      pure (start ++ text, rest)
  | _ + 1, [_] => .error .yaml

def escaped? : Char → Option Char
  | '0' => some '\x00'
  | 'a' => some '\x07'
  | 'b' => some '\x08'
  | 't' => some '\t'
  | '\t' => some '\t'
  | 'n' => some '\n'
  | 'v' => some '\x0b'
  | 'f' => some '\x0c'
  | 'r' => some '\r'
  | 'e' => some '\x1b'
  | ' ' => some ' '
  | '"' => some '"'
  | '\\' => some '\\'
  | '/' => some '/'
  | 'N' => some '\u0085'
  | '_' => some '\u00a0'
  | 'L' => some '\u2028'
  | 'P' => some '\u2029'
  | _ => none

def escapeWidth? : Char → Option Nat
  | 'x' => some 2
  | 'u' => some 4
  | 'U' => some 8
  | _ => none

/-- The character with a code. Half of a surrogate pair has none; the replacement character stands
for it. -/
def charOf (code : Nat) : Except Fault Char :=
  if 0x7FFFFFFF < code then .error (.scalar .codePointSize)
  else if 0x10FFFF < code then .error (.scalar .codePoint)
  else if 0xD800 ≤ code && code ≤ 0xDFFF then .ok '\ufffd'
  else .ok (Char.ofNat code)

def escape : List Char → Except Fault (List Char × List Char)
  | [] => .error .yaml
  | c :: rest =>
    match escaped? c, escapeWidth? c with
    | some e, _ => .ok ([e], rest)
    | none, some width =>
      let digits := (rest.take width).filterMap Text.hexValue?
      if digits.length < width then .error .yaml
      else do
        let char ← charOf (digits.foldl (fun n d => 16 * n + d) 0)
        pure ([char], rest.drop width)
    | none, none => if isBreak c then blankLines true rest else .error .yaml

def doubleQuoted : (bound : Nat) → List Char → Except Fault (List Char × List Char)
  | 0, _ | _, [] => .error .yaml
  | bound + 1, c :: rest => do
    if c == '"' then pure ([], rest)
    else
      let (start, rest) ←
        if c == '\\' then escape rest
        else if isSpace c || isBreak c then quotedGap (c :: rest)
        else pure ([c], rest)
      let (text, rest) ← doubleQuoted bound rest
      pure (start ++ text, rest)

def quotedScalar (quote : Char) (text : List Char) : Except Fault (List Char × List Char) :=
  if quote == '"' then doubleQuoted (text.length + 1) text else singleQuoted (text.length + 1) text

end LiquidityPools.Yaml
