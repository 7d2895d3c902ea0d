import LiquidityPools.Exchange

/-!
Creating a pool, adding liquidity to it, and taking liquidity out. Reserves and the caller's
position change by the same amounts. Each operation reads the pool and the position, lets the
carrier move both assets, and then writes what it computed from its reading.
-/

namespace LiquidityPools.Exchange

variable {ρ : Type}

def openPool (carrier : Carrier ρ) (caller : Account) (market : Market) (base quote : Nat) :
    Action (Exchange ρ) Pool := do
  if ← Action.read (·.store.hasPool market) then Action.fail (.marketExists market)
  requireBalance market.base caller base
  requireBalance market.quote caller quote
  let custody ← Action.read (·.config.poolAccount)
  carrier.transfer market.base caller custody base
  carrier.transfer market.quote caller custody quote
  let pool : Pool := { baseReserve := base, quoteReserve := quote }
  insertPool market pool
  Action.modify (storePlace.modify (Store.putPosition market caller ⟨base, quote⟩))
  emit (.liquidity .poolCreated caller market base quote)
  pure pool

def create (carrier : Carrier ρ) (caller : Account) (market : Market) (base quote : Nat) :
    Action (Exchange ρ) Pool :=
  unit (openPool carrier caller market base quote)

def addLiquidity (carrier : Carrier ρ) (caller : Account) (market : Market) (base quote : Nat) :
    Action (Exchange ρ) Position := do
  let pool ← requirePool market
  requireBalance market.base caller base
  requireBalance market.quote caller quote
  let cap ← Action.read (·.cap)
  let baseReserve ← Amount.add cap pool.baseReserve base
  let quoteReserve ← Amount.add cap pool.quoteReserve quote
  let held ← Action.read (·.store.position market caller)
  let baseHeld ← Amount.add cap held.base base
  let quoteHeld ← Amount.add cap held.quote quote
  let custody ← Action.read (·.config.poolAccount)
  carrier.transfer market.base caller custody base
  carrier.transfer market.quote caller custody quote
  putPool market { pool with baseReserve, quoteReserve }
  putPosition market caller ⟨baseHeld, quoteHeld⟩
  emit (.liquidity .liquidityAdded caller market base quote)
  pure ⟨baseHeld, quoteHeld⟩

def deposit (carrier : Carrier ρ) (caller : Account) (market : Market) (base quote : Nat) :
    Action (Exchange ρ) Position :=
  unit (addLiquidity carrier caller market base quote)

/-- Bounded by the caller's position, and by the reserves that trading has left. -/
def removeLiquidity (carrier : Carrier ρ) (caller : Account) (market : Market) (base quote : Nat) :
    Action (Exchange ρ) Position := do
  let pool ← requirePool market
  let held ← Action.read (·.store.position market caller)
  if held.base < base ∨ held.quote < quote then
    Action.fail (.shortPosition caller market (held.base, held.quote) (base, quote))
  let cap ← Action.read (·.cap)
  let baseHeld ← Amount.sub cap held.base base
  let quoteHeld ← Amount.sub cap held.quote quote
  let baseReserve ← Amount.sub cap pool.baseReserve base
  let quoteReserve ← Amount.sub cap pool.quoteReserve quote
  let custody ← Action.read (·.config.poolAccount)
  carrier.transfer market.base custody caller base
  carrier.transfer market.quote custody caller quote
  putPool market { pool with baseReserve, quoteReserve }
  putPosition market caller ⟨baseHeld, quoteHeld⟩
  emit (.liquidity .liquidityWithdrawn caller market base quote)
  pure ⟨baseHeld, quoteHeld⟩

def withdraw (carrier : Carrier ρ) (caller : Account) (market : Market) (base quote : Nat) :
    Action (Exchange ρ) Position :=
  unit (removeLiquidity carrier caller market base quote)

section Untyped

def createOf (carrier : Carrier ρ) (caller base quote baseAmount quoteAmount : Value) :
    Action (Exchange ρ) Pool := do
  let config ← Action.read (·.config)
  let caller ← callerOf config caller
  let market ← marketOf base quote
  let b ← amountOf config "base_amount" baseAmount
  let q ← amountOf config "quote_amount" quoteAmount
  if b = 0 ∨ q = 0 then Action.fail (.argument (.zeroInitial b q))
  create carrier caller market b q

def depositOf (carrier : Carrier ρ) (caller market baseAmount quoteAmount : Value) :
    Action (Exchange ρ) Position := do
  let config ← Action.read (·.config)
  let caller ← callerOf config caller
  let market ← marketOfPair market
  let b ← amountOf config "base_amount" baseAmount
  let q ← amountOf config "quote_amount" quoteAmount
  deposit carrier caller market b q

def withdrawOf (carrier : Carrier ρ) (caller market baseAmount quoteAmount : Value) :
    Action (Exchange ρ) Position := do
  let config ← Action.read (·.config)
  let caller ← callerOf config caller
  let market ← marketOfPair market
  let b ← amountOf config "base_amount" baseAmount
  let q ← amountOf config "quote_amount" quoteAmount
  withdraw carrier caller market b q

end Untyped

end LiquidityPools.Exchange
