import LiquidityPools.Exchange.Liquidity
import LiquidityPools.Exchange.Trade

/-!
Calls: operations submitted as data, by name and with named arguments. A call runs as one unit, and
answers with the events it caused. A call that fails with a fault of the exchange's own kinds
reports it; other faults go on to the host.
-/

namespace LiquidityPools

inductive CallName where
  | createMarketPool | depositLiquidity | withdrawLiquidity | buy | sell
  deriving DecidableEq, Repr

def CallName.ofText? : String → Option CallName
  | "create_market_pool" => some .createMarketPool
  | "deposit_liquidity" => some .depositLiquidity
  | "withdraw_liquidity" => some .withdrawLiquidity
  | "buy" => some .buy
  | "sell" => some .sell
  | _ => none

inductive CallResult where
  | done (events : List Event)
  | failed (fault : Fault)
  deriving Repr

namespace Exchange

variable {ρ : Type}

abbrev Arguments := List (Value × Value)

def Arguments.integer (args : Arguments) (name : String) (default : Value := .null) :
    Except Fault Value :=
  match (Value.field? name args).getD default with
  | .int n => .ok (.int n)
  | _ => .error (.argument (.notInt name))

def Arguments.market (args : Arguments) : Except Fault Value :=
  match Value.fieldOrNull "market" args with
  | .list [base, quote] | .tuple [base, quote] => .ok (.tuple [base, quote])
  | _ => .error (.argument .callMarket)

def perform (carrier : Carrier ρ) (caller : Value) (args : Arguments) :
    CallName → Action (Exchange ρ) Unit
  | .createMarketPool => do
    let base ← args.integer "base_asset"
    let quote ← args.integer "quote_asset"
    let baseAmount ← args.integer "base_amount"
    let quoteAmount ← args.integer "quote_amount"
    let _ ← createOf carrier caller base quote baseAmount quoteAmount
  | .depositLiquidity => do
    let market ← args.market
    let baseAmount ← args.integer "base_amount"
    let quoteAmount ← args.integer "quote_amount"
    let _ ← depositOf carrier caller market baseAmount quoteAmount
  | .withdrawLiquidity => do
    let market ← args.market
    let baseAmount ← args.integer "base_amount"
    let quoteAmount ← args.integer "quote_amount"
    let _ ← withdrawOf carrier caller market baseAmount quoteAmount
  | .buy => do
    let market ← args.market
    let amount ← args.integer "quote_amount"
    let least ← args.integer "min_receive" (.int 0)
    let _ ← tradeOf carrier .buy caller market amount least
  | .sell => do
    let market ← args.market
    let amount ← args.integer "base_amount"
    let least ← args.integer "min_receive" (.int 0)
    let _ ← tradeOf carrier .sell caller market amount least

def callOrFail (carrier : Carrier ρ) (caller call : Value) : Action (Exchange ρ) (List Event) := do
  match call with
  | .map args =>
    match Value.fieldOrNull "call" args with
    | .str text =>
      match CallName.ofText? text with
      | some name => Prod.snd <$> collect (perform carrier caller args name)
      | none => Action.fail (.argument (.unknownCall (.str text)))
    | other => Action.fail (.argument (.unknownCall other))
  | other => Action.fail (.argument (.callNotMap other))

def call (carrier : Carrier ρ) (caller call : Value) : Action (Exchange ρ) CallResult := do
  match ← Action.attempt (callOrFail carrier caller call) with
  | .ok events => pure (.done events)
  | .error fault => if fault.isOwn then pure (.failed fault) else Action.fail fault

end Exchange

end LiquidityPools
