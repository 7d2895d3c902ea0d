/-!
Bytes written with 64 characters, six bits each. Characters outside the alphabet count for nothing.
A group of four characters may be cut short and filled up with equals signs; what follows a group
that was filled up is not read.
-/

namespace LiquidityPools.Text

def sextet? (c : Char) : Option Nat :=
  if 'A' ≤ c && c ≤ 'Z' then some (c.toNat - 'A'.toNat)
  else if 'a' ≤ c && c ≤ 'z' then some (c.toNat - 'a'.toNat + 26)
  else if '0' ≤ c && c ≤ '9' then some (c.toNat - '0'.toNat + 52)
  else if c == '+' then some 62
  else if c == '/' then some 63
  else none

def completed : (place before n : Nat) → List UInt8
  | 0, _, _ => []
  | 1, before, n => [UInt8.ofNat (4 * before + n / 16)]
  | 2, before, n => [UInt8.ofNat (16 * (before % 16) + n / 4)]
  | _, before, n => [UInt8.ofNat (64 * (before % 4) + n)]

/-- The bytes from a place of a group on; `before` is the character read last, `fillers` how many
equals signs were read since. -/
def base64From (place before fillers : Nat) : List Char → Option (List UInt8)
  | [] => if place = 0 then some [] else none
  | c :: rest =>
    match sextet? c with
    | some n => do
      let data ← base64From ((place + 1) % 4) n 0 rest
      pure (completed place before n ++ data)
    | none =>
      if c == '=' && 2 ≤ place then
        if 4 ≤ place + (fillers + 1) then some [] else base64From place before (fillers + 1) rest
      else base64From place before fillers rest

def base64? (text : List Char) : Option (List UInt8) := base64From 0 0 0 text

example : base64? "ZGV4cGFsbGU=".toList = some [100, 101, 120, 112, 97, 108, 108, 101] := by decide
example : base64? "ZGV".toList = none := by decide

end LiquidityPools.Text
