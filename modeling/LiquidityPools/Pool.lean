import LiquidityPools.Amount

/-!
A market's pool: the reserves it trades against, and the taker fees it has collected and not yet
paid out. Fees are kept apart from the reserves.
-/

namespace LiquidityPools

structure Pool where
  baseReserve : Nat
  quoteReserve : Nat
  baseFees : Nat := 0
  quoteFees : Nat := 0
  deriving DecidableEq, Repr, Inhabited

namespace Pool

def ofValues (baseReserve quoteReserve baseFees quoteFees : Value) : Except Fault Pool := do
  let b ← baseReserve.field "base_reserve"
  let q ← quoteReserve.field "quote_reserve"
  let bf ← baseFees.field "collected_base_fees"
  let qf ← quoteFees.field "collected_quote_fees"
  pure ⟨b, q, bf, qf⟩

def product (p : Pool) : Nat := p.baseReserve * p.quoteReserve

def hasFees (p : Pool) : Bool := 0 < p.baseFees || 0 < p.quoteFees

def price (p : Pool) : Nat × Nat := (p.quoteReserve, p.baseReserve)

def withoutFees (p : Pool) : Pool := { p with baseFees := 0, quoteFees := 0 }

def summary (p : Pool) : String :=
  s!"PoolState(reserves=({p.baseReserve}, {p.quoteReserve}), fees=({p.baseFees}, {p.quoteFees}))"

def flip (p : Pool) : Pool := ⟨p.quoteReserve, p.baseReserve, p.quoteFees, p.baseFees⟩

end Pool

end LiquidityPools
