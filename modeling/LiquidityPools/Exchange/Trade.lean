import LiquidityPools.Exchange
import LiquidityPools.Quote

/-!
Trading: a buy or a sale executes the quote on the pool it finds, unless it would receive less than
the caller's least. The spent amount goes to the pool account but for the fee, which goes to the fee
account and onto the pool's counter of the spent side.
-/

namespace LiquidityPools.Exchange

variable {ρ : Type}

def spentFees (side : Side) (pool : Pool) : Nat := (side.orient pool.baseFees pool.quoteFees).1

def afterTrade (pool : Pool) (quote : Quote) (collected : Nat) : Pool :=
  let moved : Pool :=
    { pool with baseReserve := quote.newBaseReserve, quoteReserve := quote.newQuoteReserve }
  match quote.side with
  | .buy => { moved with quoteFees := collected }
  | .sell => { moved with baseFees := collected }

def traded (caller : Account) (market : Market) (amount : Nat) (quote : Quote) : Event :=
  match quote.side with
  | .buy => .bought caller market amount quote.fee quote.receiveAmount
  | .sell => .sold caller market amount quote.fee quote.receiveAmount

def swap (carrier : Carrier ρ) (side : Side) (caller : Account) (market : Market)
    (amount least : Nat) : Action (Exchange ρ) Quote := do
  let (spent, received) := side.orient market.base market.quote
  let pool ← requirePool market
  requireBalance spent caller amount
  let config ← Action.read (·.config)
  let quote ← Quote.price config.cap pool side amount config.feeRate
  if quote.receiveAmount < least then Action.fail (.slippage quote.receiveAmount least)
  let collected ← Amount.add config.cap (spentFees side pool) quote.fee
  carrier.transfer spent caller config.poolAccount quote.netAmount
  carrier.transfer spent caller config.feeAccount quote.fee
  carrier.transfer received config.poolAccount caller quote.receiveAmount
  putPool market (afterTrade pool quote collected)
  emit (traded caller market amount quote)
  pure quote

def trade (carrier : Carrier ρ) (side : Side) (caller : Account) (market : Market)
    (amount least : Nat) : Action (Exchange ρ) Quote :=
  unit (swap carrier side caller market amount least)

def spentName : Side → String
  | .buy => "quote_amount"
  | .sell => "base_amount"

def tradeOf (carrier : Carrier ρ) (side : Side) (caller market amount least : Value) :
    Action (Exchange ρ) Quote := do
  let config ← Action.read (·.config)
  let caller ← callerOf config caller
  let market ← marketOfPair market
  let amount ← amountOf config (spentName side) amount
  let least ← amountOf config "min_receive" least
  trade carrier side caller market amount least

end LiquidityPools.Exchange
