import LiquidityPools.Text.Hexadecimal
import LiquidityPools.Text.Hidden

/-!
The quoted form of a text in a message. Single quotes surround it, or double quotes where it holds a
single quote and no double one. The surrounding quote, a backslash and every character that does not
print are escaped.
-/

namespace LiquidityPools.Text

def hexFixed : (digits : Nat) → (n : Nat) → List Char
  | 0, _ => []
  | digits + 1, n => hexFixed digits (n / 16) ++ [hexDigit (n % 16)]

/-- A backslash, a letter for the width, and the code point in two, four or eight digits. -/
def escapeCode (c : Char) : List Char :=
  if c.toNat < 0x100 then '\\' :: 'x' :: hexFixed 2 c.toNat
  else if c.toNat < 0x10000 then '\\' :: 'u' :: hexFixed 4 c.toNat
  else '\\' :: 'U' :: hexFixed 8 c.toNat

def escapeIn (quote : Char) (c : Char) : List Char :=
  if c = quote ∨ c = '\\' then ['\\', c]
  else if c = '\n' then ['\\', 'n']
  else if c = '\r' then ['\\', 'r']
  else if c = '\t' then ['\\', 't']
  else if isHidden c then escapeCode c
  else [c]

def quoteFor (text : List Char) : Char :=
  if '\'' ∈ text ∧ '"' ∉ text then '"' else '\''

def quotedChars (text : List Char) : List Char :=
  let quote := quoteFor text
  quote :: text.flatMap (escapeIn quote) ++ [quote]

def quoted (text : String) : String := String.ofList (quotedChars text.toList)

def quotedBytes (data : List UInt8) : String :=
  let text := data.map fun b => Char.ofNat b.toNat
  let quote := quoteFor text
  let escaped := text.flatMap fun c => if 0x7E < c.toNat then escapeCode c else escapeIn quote c
  String.ofList ('b' :: quote :: escaped ++ [quote])

example : quoted "it's" = "\"it's\"" := by decide
example : quoted "a'b\"c" = "'a\\'b\"c'" := by decide
example : quoted "\u0007\u00a0\n" = "'\\x07\\xa0\\n'" := by decide

end LiquidityPools.Text
