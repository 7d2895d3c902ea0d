import LiquidityPools.Market

/-!
Events: what an exchange tells the outside about a change. Each kind names its amounts.
-/

namespace LiquidityPools

inductive Event.Kind where
  | poolCreated | liquidityAdded | liquidityWithdrawn | bought | sold | providerRewarded
  deriving DecidableEq, Repr

structure Event where
  kind : Event.Kind
  account : Account
  market : Market
  amounts : List (String × Int)
  deriving DecidableEq, Repr

namespace Event

def Kind.label : Kind → String
  | .poolCreated => "PoolCreated"
  | .liquidityAdded => "LiquidityAdded"
  | .liquidityWithdrawn => "LiquidityWithdrawn"
  | .bought => "Bought"
  | .sold => "Sold"
  | .providerRewarded => "LiquidityProviderRewarded"

def Kind.all : List Kind :=
  [.poolCreated, .liquidityAdded, .liquidityWithdrawn, .bought, .sold, .providerRewarded]

def Kind.ofLabel? (label : String) : Option Kind := Kind.all.find? (·.label == label)

/-- An amount by its name; an event that does not name it has none of it. -/
def amount (e : Event) (name : String) : Int := (e.amounts.lookup name).getD 0

def liquidity (kind : Kind) (account : Account) (market : Market) (base quote : Nat) : Event :=
  ⟨kind, account, market, [("base_amount", base), ("quote_amount", quote)]⟩

def bought (account : Account) (market : Market) (spent fee received : Nat) : Event :=
  ⟨.bought, account, market, [("quote_spent", spent), ("fee", fee), ("base_received", received)]⟩

def sold (account : Account) (market : Market) (spent fee received : Nat) : Event :=
  ⟨.sold, account, market, [("base_spent", spent), ("fee", fee), ("quote_received", received)]⟩

def ofKind (kind : Kind) (market : Option Market) (log : List Event) : List Event :=
  log.filter fun e => e.kind == kind && market.all (· == e.market)

end Event

end LiquidityPools
