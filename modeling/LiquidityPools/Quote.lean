import LiquidityPools.Curve
import LiquidityPools.FeeRate
import LiquidityPools.Pool
import LiquidityPools.Value.Order

/-!
Quotes: what a trade on one side of a pool would spend, pay in fees, receive, and leave in the
reserves. A buy spends the quote asset for base, a sale spends base for quote. The fee is taken from
the spent amount first; the rest trades along the curve.
-/

namespace LiquidityPools

inductive Side where
  | buy | sell
  deriving DecidableEq, Repr, Inhabited

namespace Side

def label : Side → String
  | .buy => "buy"
  | .sell => "sell"

def orient {α : Type} (side : Side) (base quote : α) : α × α :=
  match side with
  | .buy => (quote, base)
  | .sell => (base, quote)

def flip : Side → Side
  | .buy => .sell
  | .sell => .buy

inductive Given where
  | side (side : Side)
  | other (value : Value)

def Given.check : Given → Except Fault Side
  | .side s => .ok s
  | .other value => .error (.notASide value)

end Side

structure Quote where
  side : Side
  grossAmount : Nat
  fee : Nat
  netAmount : Nat
  receiveAmount : Nat
  newBaseReserve : Nat
  newQuoteReserve : Nat
  productBefore : Nat
  productAfter : Nat
  deriving DecidableEq, Repr, Inhabited

namespace Quote

def receive (cap : Int) (base quote : Int) (side : Side) (amount : Int) : Except Fault Nat :=
  let (reserveIn, reserveOut) := side.orient base quote
  if reserveIn ≤ 0 ∨ reserveOut ≤ 0 then
    .error (.arithmetic (.reservesNotPositive (.int base) (.int quote)))
  else if amount = 0 then .ok 0
  else (Curve.swap cap reserveIn reserveOut amount).map (·.amountOut)

def isSpent (reserve : Value) : Except Fault Bool :=
  reserve.holds .le (.int 0)

/-- `receive` on untyped amounts. The reserves are compared and the amount is held against zero
before either has to be an integer. -/
def receiveOf (cap : Int) (base quote : Value) (side : Side.Given) (amount : Value) :
    Except Fault Nat := do
  let side ← side.check
  let (reserveIn, reserveOut) := side.orient base quote
  if ← isSpent reserveIn then .error (.arithmetic (.reservesNotPositive base quote))
  if ← isSpent reserveOut then .error (.arithmetic (.reservesNotPositive base quote))
  if amount.isZero then pure 0
  else (·.amountOut) <$> Curve.swapOf cap reserveIn reserveOut amount

def price (cap : Int) (pool : Pool) (side : Side) (gross : Int) (rate : FeeRate) :
    Except Fault Quote :=
  if gross < 0 then .error (.arithmetic (.negativeGross gross))
  else
    let (reserveIn, reserveOut) := side.orient pool.baseReserve pool.quoteReserve
    if reserveIn = 0 ∨ reserveOut = 0 then
      .error (.arithmetic (.reservesNotPositive (.int pool.baseReserve) (.int pool.quoteReserve)))
    else do
      let gross := gross.toNat
      let fee ← if gross = 0 then pure 0 else rate.fee cap gross
      let net ← Amount.sub cap gross fee
      let swap ← Curve.swap cap reserveIn reserveOut net
      let (newBase, newQuote) := side.orient swap.newReserveIn swap.newReserveOut
      pure
        { side, grossAmount := gross, fee, netAmount := net, receiveAmount := swap.amountOut
          newBaseReserve := newBase, newQuoteReserve := newQuote
          productBefore := swap.productBefore, productAfter := swap.productAfter }

/-- `price` of an untyped amount on a side that has yet to be checked. A negative amount is found
before a wrong side. -/
def priceOf (cap : Int) (pool : Pool) (side : Side.Given) (gross : Value) (rate : FeeRate) :
    Except Fault Quote := do
  let amount ← gross.integer "gross_amount"
  if amount < 0 then .error (.arithmetic (.negativeGross amount))
  price cap pool (← side.check) amount rate

end Quote

end LiquidityPools
