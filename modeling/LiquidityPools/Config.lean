import LiquidityPools.Custody
import LiquidityPools.FeeRate

/-!
The configuration of an exchange. A configuration is checked when it is built, so one that exists
has a width and sizes that are positive, room for its amounts, and an identifier of the right
length.
-/

namespace LiquidityPools

structure Config where
  feeRate : FeeRate := .usual
  balanceBits : Nat := 128
  palletId : List UInt8 := Digest.ascii "dexpalle"
  pageSize : Nat := 256
  /-- How many markets a payout run settles at most; without it a run settles all. -/
  batch : Option Nat := none
  balanceBits_pos : 0 < balanceBits := by decide
  balanceBits_le : balanceBits ≤ Amount.widthLimit := by decide
  palletId_length : palletId.length = palletIdLength := by decide
  pageSize_pos : 0 < pageSize := by decide
  batch_pos : ∀ n ∈ batch, 0 < n := by decide
  deriving DecidableEq

namespace Config

def usual : Config := {}

instance : Inhabited Config := ⟨usual⟩

def cap (c : Config) : Nat := Amount.capOf c.balanceBits

def poolAccount (c : Config) : Account := Custody.poolAccount c.palletId

def feeAccount (c : Config) : Account := Custody.feeAccount c.palletId

/-- Neither of the two accounts that hold assets for the exchange. -/
def IsOutside (c : Config) (account : Account) : Prop :=
  account ≠ c.poolAccount ∧ account ≠ c.feeAccount

instance (c : Config) (account : Account) : Decidable (c.IsOutside account) :=
  inferInstanceAs (Decidable (_ ∧ _))

def idOf : Value → Except Fault { id : List UInt8 // id.length = palletIdLength }
  | .bytes id => if h : id.length = palletIdLength then .ok ⟨id, h⟩ else .error (.setting .idLength)
  | _ => .error (.setting .idLength)

def pageSizeOf (value : Value) : Except Fault { n : Nat // 0 < n } := do
  let n ← value.integer "payout_page_size"
  if h : 0 < n then pure ⟨n.toNat, Int.pos_iff_toNat_pos.1 h⟩
    else .error (.setting (.pageSizeNotPositive n))

def batchOf : Value → Except Fault { batch : Option Nat // ∀ n ∈ batch, 0 < n }
  | .null => .ok ⟨none, nofun⟩
  | .int n =>
    if h : 0 < n then .ok ⟨some n.toNat, by rintro m ⟨rfl⟩; omega⟩
    else .error (.setting .batchNotPositive)
  | _ => .error (.setting .batchNotInt)

/-- Builds a configuration from its fields, which are checked in this order. A fee rate is none if
something else was given for it. -/
def ofFields (feeRate : Option FeeRate) (balanceBits palletId pageSize batch : Value) :
    Except Fault Config := do
  match feeRate with
  | none => .error (.setting .notARate)
  | some feeRate =>
    let ⟨balanceBits, balanceBits_pos, balanceBits_le⟩ ← Amount.widthOf balanceBits
    let ⟨palletId, palletId_length⟩ ← idOf palletId
    let ⟨pageSize, pageSize_pos⟩ ← pageSizeOf pageSize
    let ⟨batch, batch_pos⟩ ← batchOf batch
    pure
      { feeRate, balanceBits, palletId, pageSize, batch
        balanceBits_pos, balanceBits_le, palletId_length, pageSize_pos, batch_pos }

def usualBits : Value := .int 128

def usualId : Value := .bytes (Digest.ascii "dexpalle")

def usualPageSize : Value := .int 256

end Config

end LiquidityPools
