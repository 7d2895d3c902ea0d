import LiquidityPools.Amount

/-!
A provider's position in one market: what it has contributed on each side. The position is the
provider's weight when fees are paid out, and the bound on what it may withdraw.
-/

namespace LiquidityPools

structure Position where
  base : Nat := 0
  quote : Nat := 0
  deriving DecidableEq, Repr, Inhabited

namespace Position

def ofValues (base quote : Value) : Except Fault Position := do
  let b ← base.field "base_contributed"
  let q ← quote.field "quote_contributed"
  pure ⟨b, q⟩

/-- What a provider without a recorded position holds. -/
def empty : Position := {}

def isEmpty (p : Position) : Bool := p.base == 0 && p.quote == 0

def flip (p : Position) : Position := ⟨p.quote, p.base⟩

end Position

end LiquidityPools
