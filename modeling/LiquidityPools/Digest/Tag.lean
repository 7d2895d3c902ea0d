import LiquidityPools.Amount
import LiquidityPools.Digest.Sha256

/-!
What is hashed, and how a digest is written. A tag names the purpose and the version of a hash; it
is ASCII and ends in the only zero byte it holds, so that a tag and the data behind it can be told
apart.
-/

namespace LiquidityPools.Digest

def ascii (text : String) : List UInt8 := text.toList.map fun c => UInt8.ofNat c.toNat

def tag (label : String) (version : Nat) : List UInt8 :=
  ascii "cpamm:" ++ ascii label ++ ascii ":v" ++ ascii (toString version) ++ [0]

def versionOf : Value → Except Fault Nat
  | .int n => if 0 < n then .ok n.toNat else .error (.encoding .versionNotPositive)
  | _ => .error (.encoding .versionNotPositive)

def labelOf : Value → Except Fault String
  | .str s =>
    if s.isEmpty then .error (.encoding .labelEmpty)
    else if s.toList.any fun c => c.toNat = 0 then .error (.encoding .labelHasNul)
    else if s.toList.any fun c => 128 ≤ c.toNat then .error (.encoding .labelNotAscii)
    else .ok s
  | _ => .error (.encoding .labelEmpty)

def tagOf (label version : Value) : Except Fault (List UInt8) := do
  let l ← labelOf label
  let v ← versionOf version
  pure (tag l v)

def sha256Text (data : List UInt8) : String := "0x" ++ Text.hex (Sha256.digest data)

/-- The bytes that a text of exactly `size` bytes behind `0x` writes; `name` stands in
complaints. -/
def fixedBytes (name : String) (text size : Value) : Except Fault (List UInt8) :=
  match text with
  | .str s =>
    match size with
    | .int n =>
      if 0 < n then
        match s.toList with
        | '0' :: 'x' :: digits =>
          if (digits.length : Int) = 2 * n then
            match Text.unhex? digits with
            | some data => .ok data
            | none => .error (.encoding (.hexDigits name))
          else .error (.encoding (.hexShape name n))
        | _ => .error (.encoding (.hexShape name n))
      else .error (.encoding .hexSize)
    | _ => .error (.encoding .hexSize)
  | _ => .error (.encoding (.hexNotText name))

end LiquidityPools.Digest
