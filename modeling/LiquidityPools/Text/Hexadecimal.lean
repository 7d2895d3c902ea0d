/-!
Bytes as pairs of hexadecimal digits: written in lower case, read in either.
-/

namespace LiquidityPools.Text

def hexDigit (n : Nat) : Char := n.digitChar

def byteHex (b : UInt8) : List Char := [hexDigit (b.toNat / 16), hexDigit (b.toNat % 16)]

def hexChars (data : List UInt8) : List Char := data.flatMap byteHex

def hex (data : List UInt8) : String := String.ofList (hexChars data)

def hexValue? (c : Char) : Option Nat :=
  if '0' ≤ c ∧ c ≤ '9' then some (c.toNat - '0'.toNat)
  else if 'a' ≤ c ∧ c ≤ 'f' then some (c.toNat - 'a'.toNat + 10)
  else if 'A' ≤ c ∧ c ≤ 'F' then some (c.toNat - 'A'.toNat + 10)
  else none

def unhex? : List Char → Option (List UInt8)
  | [] => some []
  | [_] => none
  | high :: low :: rest => do
    let h ← hexValue? high
    let l ← hexValue? low
    let data ← unhex? rest
    pure (UInt8.ofNat (16 * h + l) :: data)

theorem hexValue?_hexDigit : ∀ n < 16, hexValue? (hexDigit n) = some n := by decide

theorem unhex?_hexChars (data : List UInt8) : unhex? (hexChars data) = some data := by
  induction data with
  | nil => rfl
  | cons b rest ih =>
    have high : hexValue? (hexDigit (b.toNat / 16)) = some (b.toNat / 16) :=
      hexValue?_hexDigit _ (by have := b.toNat_lt; omega)
    have low : hexValue? (hexDigit (b.toNat % 16)) = some (b.toNat % 16) :=
      hexValue?_hexDigit _ (by omega)
    have whole : UInt8.ofNat (16 * (b.toNat / 16) + b.toNat % 16) = b := by
      rw [Nat.div_add_mod]; exact UInt8.ofNat_toNat
    have ih' : unhex? (List.flatMap byteHex rest) = some rest := ih
    simp only [hexChars, byteHex, List.flatMap_cons, List.cons_append, List.nil_append, unhex?,
      high, low, ih', Option.bind_eq_bind, Option.bind_some, whole, Option.pure_def]

end LiquidityPools.Text
