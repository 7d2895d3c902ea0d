import LiquidityPools.Digest.Tag

/-!
The two accounts that an exchange holds assets in. Both follow from the exchange's identifier: the
pool account spells it out, the fee account is a digest of the pool account.
-/

namespace LiquidityPools.Custody

def accountLength : Nat := 32

/-- The bytes of the pool account: a marker and the identifier, filled up with zeros. -/
def poolBytes (id : List UInt8) : List UInt8 :=
  let raw := Digest.ascii "modl" ++ id
  raw ++ List.replicate (accountLength - raw.length) 0

def poolAccount (id : List UInt8) : Account := "0x" ++ Text.hex (poolBytes id)

def feeAccount (id : List UInt8) : Account :=
  Digest.sha256Text (Digest.tag "fee_account" 1 ++ poolBytes id ++ Digest.ascii "fees")

def idOf : Value → Except Fault (List UInt8)
  | .bytes id =>
    if id.isEmpty then .error (.encoding .idEmpty)
    else if accountLength < 4 + id.length then .error (.encoding .idTooLong)
    else .ok id
  | _ => .error (.encoding .idEmpty)

end LiquidityPools.Custody
