import LiquidityPools.Exchange.Call
import LiquidityPools.Payout
import LiquidityPools.Snapshot
import LiquidityPools.Value.Order

/-!
Scripts that drive an exchange, and the replies to them. A script may open units around its steps,
and arm hooks: steps that run when a matching transfer is about to be made, once each.
-/

namespace LiquidityPools.Session

/-- Which transfers a rule is about; an absent field allows everything. -/
structure Rule where
  asset : Option Value := none
  source : Option Value := none
  dest : Option Value := none
  least : Option Value := none
  deriving Repr

/-- The amount is compared only if the other fields allow the transfer, and has to be a number. -/
def Rule.applies (r : Rule) (asset : Asset) (source dest : Account) (amount : Value) :
    Except Fault Bool :=
  if r.asset.all (·.sameKey (.int asset)) && r.source.all (·.sameKey (.str source)) &&
      r.dest.all (·.sameKey (.str dest)) then
    match r.least with
    | none => .ok true
    | some least => amount.holds .ge least
  else .ok false

def Rule.anyApplies (rules : List Rule) (asset : Asset) (source dest : Account) (amount : Value) :
    Except Fault Bool :=
  match rules with
  | [] => .ok false
  | r :: rest => do
    if ← r.applies asset source dest amount then pure true
    else Rule.anyApplies rest asset source dest amount

mutual

inductive Command where
  | create (caller base quote baseAmount quoteAmount : Value)
  | deposit (caller market baseAmount quoteAmount : Value)
  | withdraw (caller market baseAmount quoteAmount : Value)
  | trade (side : Side) (caller market amount least : Value)
  | pool (market : Value)
  | position (market : Value) (provider : Account)
  | markets
  | price (market : Value)
  | fee (amount : Value)
  | balance (asset : Asset) (account : Account)
  | total (asset : Asset)
  | call (caller call : Value)
  | callOrFail (caller call : Value)
  | unit (steps : List Step)
  | mint (asset : Asset) (account : Account) (amount : Int)
  | transfer (asset : Asset) (source dest : Account) (amount : Value)
  | refuse (rules : List Rule)
  | hook (rule : Rule) (step : Step)
  | distribute (after : Option Market) (most : Value) (paidTo : Option Value)
  | distributeOrFail (after : Option Market) (most : Value) (paidTo : Option Value)
  | pending (after : Option Market)
  | snapshot (version : Value)
  | ofKind (kind : Event.Kind) (market : Option Market)
  | fail (message : String)

inductive Step where
  | mk (command : Command) (raises : Bool)

end

instance : Inhabited Step := ⟨.mk .markets false⟩

def Step.command : Step → Command
  | .mk command _ => command

def Step.raises : Step → Bool
  | .mk _ raises => raises

mutual

def Command.size : Command → Nat
  | .unit steps => stepsSize steps + 1
  | .hook _ step => step.size + 1
  | _ => 1

def Step.size : Step → Nat
  | .mk command _ => command.size

def stepsSize : List Step → Nat
  | [] => 0
  | step :: rest => step.size + stepsSize rest

end

mutual

inductive Answer where
  | nothing
  | pool (pool : Pool)
  | position (position : Position)
  | quote (quote : Quote)
  | markets (markets : List Market)
  | price (quote base : Nat)
  | amount (amount : Nat)
  | called (result : CallResult)
  | events (events : List Event)
  | report (report : Payout.Report) (paidTo : Option (List Payout))
  | snapshot (snapshot : Snapshot)
  | unit (replies : List Reply) (ended : Except Fault (List Event))

inductive Reply where
  | mk (answer : Except Fault Answer) (events : List Event) (store : Store) (ledger : Ledger)
    (hooked : List Reply)

end

end LiquidityPools.Session
