import LiquidityPools.Exchange
import LiquidityPools.Store.Walk

/-!
Paying collected fees out to the providers. A run takes the markets with collected fees, in order,
and settles each as a unit of its own: every provider is paid

    ⌊collected * contributed / max(reserve, all contributions)⌋

on each side, what rounding leaves over stays in the fee account as dust, and the counters go to
zero. A market whose settlement fails with a fault of the exchange's own kinds is left as it was,
and the run reports it and goes on. A market that is being settled is in flight; a run over it that
starts meanwhile is refused.
-/

namespace LiquidityPools

structure Payout where
  market : Market
  provider : Account
  base : Nat
  quote : Nat
  deriving DecidableEq, Repr

namespace Payout

structure Failure where
  market : Market
  fault : Fault
  deriving Repr

structure Report where
  paidMarkets : List Market := []
  payouts : List Payout := []
  /-- For each paid market, what stays in the fee account on its base and on its quote side. -/
  dust : List (Market × Nat × Nat) := []
  failures : List Failure := []
  /-- The last market of a run that stopped before the last pending market. -/
  nextCursor : Option Market := none
  deriving Repr

def Report.ok (r : Report) : Bool := r.failures.isEmpty

def Report.paidTo (r : Report) (provider : Account) : List Payout :=
  r.payouts.filter (·.provider == provider)

/-- One provider's share of one side; nothing if there is nothing to share or to weigh. -/
def share (cap : Int) (collected contributed weight : Nat) : Except Fault Nat :=
  if collected = 0 ∨ contributed = 0 ∨ weight = 0 then .ok 0
  else Amount.mulDiv cap collected contributed weight

def addContribution (cap : Int) (sums : Nat × Nat) (item : Account × Position) :
    Except Fault (Nat × Nat) := do
  let base ← Amount.add cap sums.1 item.2.base
  let quote ← Amount.add cap sums.2 item.2.quote
  pure (base, quote)

def totals (cap : Int) (positions : List (Account × Position)) : Except Fault (Nat × Nat) :=
  positions.foldlM (addContribution cap) (0, 0)

structure Tally where
  base : Nat := 0
  quote : Nat := 0
  payouts : List Payout := []
  deriving DecidableEq, Repr

end Payout

namespace Exchange

open Payout (Report Tally share)

variable {ρ : Type}

def pendingMarkets (x : Exchange ρ) (after : Option Market) : List Market :=
  (x.store.markets after).filter fun m => (x.store.pool? m).any Pool.hasFees

def payProvider (carrier : Carrier ρ) (market : Market) (pool : Pool) (weights : Nat × Nat)
    (provider : Account) (position : Position) (tally : Tally) : Action (Exchange ρ) Tally := do
  let config ← Action.read (·.config)
  let base ← share config.cap pool.baseFees position.base weights.1
  let quote ← share config.cap pool.quoteFees position.quote weights.2
  if base = 0 ∧ quote = 0 then pure tally else
    carrier.transfer market.base config.feeAccount provider base
    carrier.transfer market.quote config.feeAccount provider quote
    let paidBase ← Amount.add config.cap tally.base base
    let paidQuote ← Amount.add config.cap tally.quote quote
    emit (.liquidity .providerRewarded provider market base quote)
    pure ⟨paidBase, paidQuote, tally.payouts ++ [⟨market, provider, base, quote⟩]⟩

def payProviders (carrier : Carrier ρ) (market : Market) (pool : Pool) (weights : Nat × Nat) :
    (bound : Nat) → Walk → Tally → Action (Exchange ρ) Tally
  | 0, _, tally => pure tally
  | bound + 1, walk, tally => do
    match ← Action.read (walk.next ·.store) with
    | none => pure tally
    | some ((provider, position), walk) =>
      let tally ← payProvider carrier market pool weights provider position tally
      payProviders carrier market pool weights bound walk tally

/-- Pays out one market; answers with the payouts and the dust of both sides. The walk through the
positions ends by itself before the bound given here. -/
def payOut (carrier : Carrier ρ) (market : Market) :
    Action (Exchange ρ) (List Payout × Nat × Nat) := do
  let market ← marketOf (.int market.base) (.int market.quote)
  let pool ← requirePool market
  let config ← Action.read (·.config)
  let positions ← Action.read (·.store.positionsOf market)
  let (totalBase, totalQuote) ← Payout.totals config.cap positions
  let weights := (max pool.baseReserve totalBase, max pool.quoteReserve totalQuote)
  let tally ← payProviders carrier market pool weights (positions.length + carrier.patience + 1)
    { market, pageSize := config.pageSize } {}
  let baseDust ← Amount.sub config.cap pool.baseFees tally.base
  let quoteDust ← Amount.sub config.cap pool.quoteFees tally.quote
  putPool market pool.withoutFees
  pure (tally.payouts, baseDust, quoteDust)

def settle (carrier : Carrier ρ) (market : Market) :
    Action (Exchange ρ) (List Payout × Nat × Nat) :=
  unit (payOut carrier market)

def settleInFlight (carrier : Carrier ρ) (market : Market) :
    Action (Exchange ρ) (Except Fault (List Payout × Nat × Nat)) := do
  Action.modify fun x => { x with inFlight := market :: x.inFlight }
  let outcome ← Action.attempt (settle carrier market)
  Action.modify fun x => { x with inFlight := x.inFlight.filter (· ≠ market) }
  pure outcome

def settleAll (carrier : Carrier ρ) : List Market → Report → Action (Exchange ρ) Report
  | [], report => pure report
  | market :: rest, report => do
    match ← settleInFlight carrier market with
    | .ok (payouts, dust) =>
      settleAll carrier rest
        { report with
          paidMarkets := report.paidMarkets ++ [market]
          payouts := report.payouts ++ payouts
          dust := report.dust ++ [(market, dust)] }
    | .error fault =>
      if fault.isOwn then
        settleAll carrier rest { report with failures := report.failures ++ [⟨market, fault⟩] }
      else Action.fail fault

def batchOf (pending : List Market) : Option Nat → List Market
  | none => pending
  | some n => pending.take n

def distribute (carrier : Carrier ρ) (after : Option Market) (most : Option Nat) :
    Action (Exchange ρ) Report := do
  let pending ← Action.read (·.pendingMarkets after)
  let batch := batchOf pending most
  let busy ← Action.read fun x => batch.filter (· ∈ x.inFlight)
  if !busy.isEmpty then Action.fail (.payoutRunning busy)
  let report ← settleAll carrier batch {}
  pure { report with nextCursor := if batch.length < pending.length then batch.getLast? else none }

def mostOf (c : Config) : Value → Except Fault (Option Nat)
  | .null => .ok c.batch
  | .int n => if 0 < n then .ok (some n.toNat) else .error (.batchLimit (.int n))
  | other => .error (.batchLimit other)

def distributeOf (carrier : Carrier ρ) (after : Option Market) (most : Value) :
    Action (Exchange ρ) Report := do
  let config ← Action.read (·.config)
  distribute carrier after (← mostOf config most)

def distributeOrFail (carrier : Carrier ρ) (after : Option Market) (most : Value) :
    Action (Exchange ρ) Report := do
  let report ← distributeOf carrier after most
  if report.ok then pure report
  else Action.fail (.transfer (.payoutFailed
    (report.failures.map fun f => (f.market, f.fault.message))))

end Exchange

end LiquidityPools
