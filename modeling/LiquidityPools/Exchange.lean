import LiquidityPools.Config
import LiquidityPools.Event
import LiquidityPools.Ledger
import LiquidityPools.Market.Check
import LiquidityPools.Store

/-!
The exchange: a store of pools and positions, a ledger that holds the assets, and a log of published
events. Whoever carries out transfers is a parameter, a `Carrier`, with a state of its own beside
the exchange: it may refuse a transfer, or call back into the exchange before moving anything.

A unit of the exchange is atomic over the store and the ledger. It collects events; the outermost
unit publishes them when it has committed, an inner one hands them to the unit around it, so that
they are dropped if that one fails.
-/

namespace LiquidityPools

structure Exchange (ρ : Type) where
  config : Config
  store : Store := {}
  ledger : Ledger := {}
  log : List Event := []
  /-- The events collected by each open unit, the innermost unit first. -/
  openUnits : List (List Event) := []
  inFlight : List Market := []
  /-- The carrier's own state. -/
  host : ρ

structure Carrier (ρ : Type) where
  transfer : Asset → Account → Account → Nat → Action (Exchange ρ) Unit
  /-- A bound on the positions that carrying out transfers may record during one payout. -/
  patience : Nat := 0

namespace Exchange

variable {ρ α : Type}

def storePlace : Lens (Exchange ρ) Store := ⟨store, fun x s => { x with store := s }⟩

def ledgerPlace : Lens (Exchange ρ) Ledger := ⟨ledger, fun x l => { x with ledger := l }⟩

def cap (x : Exchange ρ) : Nat := x.config.cap

def balance (x : Exchange ρ) (asset : Asset) (account : Account) : Nat :=
  x.ledger.balance asset account

section Units

def emit (event : Event) : Action (Exchange ρ) Unit :=
  Action.modify fun x =>
    match x.openUnits with
    | [] => x
    | innermost :: outer => { x with openUnits := (innermost ++ [event]) :: outer }

/-- Publishes what the innermost unit collected, or hands it to the unit around it. -/
def deliver (events : List Event) (x : Exchange ρ) : Exchange ρ :=
  match x.openUnits with
  | [] => { x with log := x.log ++ events }
  | enclosing :: outer => { x with openUnits := (enclosing ++ events) :: outer }

def enter (x : Exchange ρ) : Atomic.Marks (Exchange ρ) × Exchange ρ :=
  Atomic.enter (Store.depthOf storePlace) [Store.member storePlace, Ledger.member ledgerPlace]
    { x with openUnits := [] :: x.openUnits }

def leave (marks : Atomic.Marks (Exchange ρ)) (outcome : Except Fault α) :
    Action (Exchange ρ) (α × List Event) := fun x =>
  let (outcome, x) := Atomic.leave (Store.depthOf storePlace) marks outcome x
  let collected := x.openUnits.headD []
  let x := { x with openUnits := x.openUnits.tail }
  match outcome with
  | .ok a => (.ok (a, collected), x.deliver collected)
  | .error fault => (.error fault, x)

def collect (body : Action (Exchange ρ) α) : Action (Exchange ρ) (α × List Event) := fun x =>
  let (marks, x) := x.enter
  let (outcome, x) := body x
  leave marks outcome x

def unit (body : Action (Exchange ρ) α) : Action (Exchange ρ) α :=
  Prod.fst <$> collect body

end Units

section Requirements

def requirePool (market : Market) : Action (Exchange ρ) Pool := fun x =>
  match x.store.pool? market with
  | some pool => (.ok pool, x)
  | none => (.error (.marketMissing market), x)

def requireBalance (asset : Asset) (account : Account) (amount : Nat) :
    Action (Exchange ρ) Unit := fun x =>
  let available := x.balance asset account
  if available < amount then (.error (.shortBalance account available asset amount), x)
  else (.ok (), x)

def insertPool (market : Market) (pool : Pool) : Action (Exchange ρ) Unit :=
  storePlace.change (Store.insertPool market pool)

def putPool (market : Market) (pool : Pool) : Action (Exchange ρ) Unit :=
  storePlace.change (Store.putPool market pool)

/-- Records a position; an empty one only over a recorded one. -/
def putPosition (market : Market) (provider : Account) (position : Position) :
    Action (Exchange ρ) Unit :=
  Action.modify fun x =>
    if position.isEmpty && !x.store.hasPosition market provider then x
    else storePlace.modify (Store.putPosition market provider position) x

end Requirements

section Arguments

def callerOf (c : Config) : Value → Except Fault Account
  | .str s =>
    if s.isEmpty then .error (.argument .noCaller)
    else if s = c.poolAccount ∨ s = c.feeAccount then .error (.argument .custodyCaller)
    else .ok s
  | _ => .error (.argument .noCaller)

def marketOf (base quote : Value) : Except Fault Market :=
  (Market.ofValues base quote).mapError fun cause => .argument (.market cause)

def marketOfPair : Value → Except Fault Market
  | .list [base, quote] | .tuple [base, quote] => marketOf base quote
  | other => .error (.argument (.notAPair other))

def amountOf (c : Config) (name : String) : Value → Except Fault Nat
  | .int n =>
    if 0 ≤ n ∧ n ≤ c.cap then .ok n.toNat else .error (.argument (.outOfRange name c.cap n))
  | _ => .error (.argument (.notInt name))

end Arguments

end Exchange

namespace Carrier

variable {ρ : Type}

def direct : Carrier ρ where
  transfer asset source dest amount :=
    Exchange.ledgerPlace.change (Ledger.move asset source dest amount)

abbrev Refusal := Asset → Account → Account → Nat → Bool

def refusing (refuses : Refusal) : Carrier ρ where
  transfer asset source dest amount :=
    if refuses asset source dest amount then
      Action.fail (.transfer (.refused asset source dest (.int amount)))
    else direct.transfer asset source dest amount

end Carrier

end LiquidityPools
