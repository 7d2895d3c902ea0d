import LiquidityPools.Amount

/-!
The constant-product curve. A trade adds `netIn` to one reserve and takes from the other what keeps
the product of the reserves, the new reserve rounded down:

    newReserveOut = ⌊reserveIn * reserveOut / (reserveIn + netIn)⌋

So rounding favours the trader by less than one unit, and the product never grows. The curve knows
neither sides nor fees.
-/

namespace LiquidityPools.Curve

structure Swap where
  amountOut : Nat
  netIn : Nat
  newReserveIn : Nat
  newReserveOut : Nat
  productBefore : Nat
  productAfter : Nat
  deriving DecidableEq, Repr, Inhabited

/-- Trades `netIn`. Nothing is computed, and so nothing can overflow, where `netIn` is zero. -/
def swap (cap : Int) (reserveIn reserveOut netIn : Int) : Except Fault Swap :=
  if reserveIn ≤ 0 ∨ reserveOut ≤ 0 then
    .error (.arithmetic (.emptyReserve reserveIn reserveOut))
  else
    let x := reserveIn.toNat
    let y := reserveOut.toNat
    if netIn = 0 then .ok ⟨0, 0, x, y, x * y, x * y⟩
    else do
      let before ← Amount.mul cap x y
      let net ← Amount.operand "b" (.int netIn)
      let newIn ← Amount.add cap x net
      let newOut ← Amount.div cap before newIn
      if y < newOut then .error (.arithmetic (.outputGrows newOut y))
      let out ← Amount.sub cap y newOut
      let after := newIn * newOut
      if (before : Int) - newIn < after ∧ after ≤ before then
        pure ⟨out, net, newIn, newOut, before, after⟩
      else .error (.arithmetic (.productOutOfBounds after before))

def swapOf (cap : Int) (reserveIn reserveOut netIn : Value) : Except Fault Swap := do
  let x ← reserveIn.integer "reserve_in"
  let y ← reserveOut.integer "reserve_out"
  let n ← netIn.integer "net_in"
  swap cap x y n

end LiquidityPools.Curve
