import LiquidityPools.Amount
import LiquidityPools.Number.Double

/-!
The taker fee: a fixed part of what a trade spends, rounded down, so that a trade too small to owe a
whole unit pays none. A rate below one leaves something of every trade that spends anything.
-/

namespace LiquidityPools

structure FeeRate where
  numerator : Nat
  denominator : Nat
  below_one : numerator < denominator
  deriving DecidableEq, Repr

namespace FeeRate

def usual : FeeRate := ⟨1, 1000, by decide⟩

instance : Inhabited FeeRate := ⟨usual⟩

def ofInts (numerator denominator : Int) : Except Fault FeeRate :=
  if 0 < denominator then
    if h : 0 ≤ numerator ∧ numerator < denominator then
      .ok ⟨numerator.toNat, denominator.toNat, by omega⟩
    else .error (.setting (.numeratorOutOfRange numerator denominator))
  else .error (.setting (.denominatorNotPositive denominator))

def ofValues (numerator denominator : Value) : Except Fault FeeRate := do
  let n ← numerator.integer "numerator"
  let d ← denominator.integer "denominator"
  ofInts n d

/-- The fee on an amount. The product has to fit under the cap by itself. -/
def fee (rate : FeeRate) (cap : Int) (amount : Nat) : Except Fault Nat := do
  let product ← Amount.mul cap amount rate.numerator
  Amount.div cap product rate.denominator

def feeOf (rate : FeeRate) (cap : Int) (amount : Value) : Except Fault Nat := do
  rate.fee cap (← Amount.operand "a" amount)

def basisPoints (rate : FeeRate) : String :=
  Number.doubleHex (rate.numerator * 10000) rate.denominator

theorem denominator_pos (rate : FeeRate) : 0 < rate.denominator :=
  Nat.lt_of_le_of_lt (Nat.zero_le _) rate.below_one

theorem fee_eq_ok_iff {rate : FeeRate} {cap : Int} {amount n : Nat} :
    rate.fee cap amount = .ok n ↔
      ((amount * rate.numerator : Nat) : Int) ≤ cap ∧
        n = amount * rate.numerator / rate.denominator := by
  have positive := rate.denominator_pos
  unfold fee
  cases product : Amount.mul cap amount rate.numerator with
  | error fault =>
    simp only [bind, Except.bind, reduceCtorEq, false_iff, not_and]
    intro fits
    have done : Amount.mul cap amount rate.numerator = .ok _ := Amount.mul_eq_ok_iff.2 ⟨rfl, fits⟩
    simp [product] at done
  | ok p =>
    obtain ⟨rfl, fits⟩ := Amount.mul_eq_ok_iff.1 product
    simp only [bind, Except.bind, Amount.div_eq_ok_iff]
    refine ⟨fun h => ⟨fits, h.2.1⟩, fun h => ⟨by omega, h.2, ?_⟩⟩
    have := Nat.div_le_self (amount * rate.numerator) rate.denominator
    omega

end FeeRate

end LiquidityPools
