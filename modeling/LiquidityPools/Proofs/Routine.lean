import LiquidityPools.Ledger
import LiquidityPools.Store

/-!
Routines: finite programs over a store and a ledger, made of reads, writes and atomic blocks. What a
routine does next may depend on all that it was answered before, and on how each write and each
block ended; a failure that it does not go on from ends the block around it.

Routines run on two machines. A vault is a store and a ledger with their journals, and a block is an
atomic unit over both. A sheet has tables only, without journals, without an index of providers, and
without a count of open units: a block keeps a copy of it, and puts the copy back if it fails.
Neither forgets what was read.
-/

namespace LiquidityPools

namespace Routine

inductive Query where
  | pool (market : Market)
  | hasPool (market : Market)
  | markets (after : Option Market)
  | pools
  | position (market : Market) (provider : Account)
  | hasPosition (market : Market) (provider : Account)
  | count (market : Market)
  | page (market : Market) (after : Option Account) (limit : Value)
  | balance (asset : Asset) (account : Account)

inductive Answer where
  | pool (pool : Option Pool)
  | flag (b : Bool)
  | markets (markets : List Market)
  | pools (pools : List (Market × Pool))
  | position (position : Position)
  | count (n : Nat)
  | positions (positions : List (Account × Position))
  | amount (n : Nat)
  deriving DecidableEq

inductive Write where
  | insertPool (market : Market) (pool : Pool)
  | putPool (market : Market) (pool : Pool)
  | putPosition (market : Market) (provider : Account) (position : Position)
  | transfer (asset : Asset) (source dest : Account) (amount : Value)

end Routine

open Routine (Query Answer Write)

inductive Routine : Type → Type 1 where
  | give {α : Type} (a : α) : Routine α
  | fail {α : Type} (fault : Fault) : Routine α
  | ask {α : Type} (query : Query) (next : Except Fault Answer → Routine α) : Routine α
  | write {α : Type} (write : Write) (next : Except Fault Unit → Routine α) : Routine α
  | block {α β : Type} (body : Routine β) (next : Except Fault β → Routine α) : Routine α

structure Vault where
  store : Store := {}
  ledger : Ledger := {}
  seen : List (Except Fault Answer) := []

namespace Vault

def storePlace : Lens Vault Store := ⟨store, fun v s => { v with store := s }⟩

def ledgerPlace : Lens Vault Ledger := ⟨ledger, fun v l => { v with ledger := l }⟩

def answer (v : Vault) : Query → Except Fault Answer
  | .pool market => .ok (.pool (v.store.pool? market))
  | .hasPool market => .ok (.flag (v.store.hasPool market))
  | .markets after => .ok (.markets (v.store.markets after))
  | .pools => .ok (.pools v.store.pools.entries)
  | .position market provider => .ok (.position (v.store.position market provider))
  | .hasPosition market provider => .ok (.flag (v.store.hasPosition market provider))
  | .count market => .ok (.count (v.store.positionCount market))
  | .page market after limit =>
    (Store.limitOf limit).map fun n => .positions (v.store.page market after n)
  | .balance asset account => .ok (.amount (v.ledger.balance asset account))

def ask (query : Query) : Action Vault (Except Fault Answer) := fun v =>
  (.ok (v.answer query), { v with seen := v.seen ++ [v.answer query] })

def write : Write → Action Vault Unit
  | .insertPool market pool => storePlace.change (Store.insertPool market pool)
  | .putPool market pool => storePlace.change (Store.putPool market pool)
  | .putPosition market provider position =>
    Action.modify (storePlace.modify (Store.putPosition market provider position))
  | .transfer asset source dest amount =>
    ledgerPlace.change (Ledger.transfer asset source dest amount)

def atomic {α : Type} (body : Action Vault α) : Action Vault α :=
  Store.atomic storePlace [Ledger.member ledgerPlace] body

end Vault

structure Sheet where
  pools : Table Market Pool := ∅
  positions : Table (Market × Account) Position := ∅
  balances : Balances := {}
  seen : List (Except Fault Answer) := []

namespace Sheet

def positionsOf (s : Sheet) (market : Market) : List (Account × Position) :=
  (s.positions.entries.filter (·.1.1 = market)).map fun e => (e.1.2, e.2)

def answer (s : Sheet) : Query → Except Fault Answer
  | .pool market => .ok (.pool (s.pools.get? market))
  | .hasPool market => .ok (.flag (s.pools.contains market))
  | .markets after =>
    .ok (.markets (s.pools.keys.filter fun m => after.all fun cursor => compare cursor m = .lt))
  | .pools => .ok (.pools s.pools.entries)
  | .position market provider => .ok (.position ((s.positions.get? (market, provider)).getD .empty))
  | .hasPosition market provider => .ok (.flag (s.positions.contains (market, provider)))
  | .count market => .ok (.count (s.positionsOf market).length)
  | .page market after limit =>
    (Store.limitOf limit).map fun n =>
      .positions (((s.positionsOf market).filter fun e =>
        after.all fun cursor => compare cursor e.1 = .lt).take n)
  | .balance asset account => .ok (.amount (s.balances.get account asset))

def ask (query : Query) : Action Sheet (Except Fault Answer) := fun s =>
  (.ok (s.answer query), { s with seen := s.seen ++ [s.answer query] })

def write : Write → Action Sheet Unit
  | .insertPool market pool => fun s =>
    if s.pools.contains market then (.error (.poolTaken market), s)
    else (.ok (), { s with pools := s.pools.insert market pool })
  | .putPool market pool => fun s =>
    if s.pools.contains market then (.ok (), { s with pools := s.pools.insert market pool })
    else (.error (.poolAbsent market), s)
  | .putPosition market provider position => fun s =>
    (.ok (), { s with positions := s.positions.insert (market, provider) position })
  | .transfer asset source dest amount => fun s =>
    match (Ledger.transfer asset source dest amount { balances := s.balances }).map
      (·.balances) with
    | .ok balances => (.ok (), { s with balances })
    | .error fault => (.error fault, s)

/-- Runs a step; if it fails, the sheet is as it was, but for what was read. -/
def atomic {α : Type} (body : Action Sheet α) : Action Sheet α := fun s =>
  match body s with
  | (.ok a, t) => (.ok a, t)
  | (.error fault, t) => (.error fault, { s with seen := t.seen })

end Sheet

namespace Routine

def onVault {α : Type} : Routine α → Action Vault α
  | .give a => pure a
  | .fail fault => Action.fail fault
  | .ask query next => do (next (← Vault.ask query)).onVault
  | .write w next => do (next (← Action.attempt (Vault.write w))).onVault
  | .block body next => do (next (← Action.attempt (Vault.atomic body.onVault))).onVault

def onSheet {α : Type} : Routine α → Action Sheet α
  | .give a => pure a
  | .fail fault => Action.fail fault
  | .ask query next => do (next (← Sheet.ask query)).onSheet
  | .write w next => do (next (← Action.attempt (Sheet.write w))).onSheet
  | .block body next => do (next (← Action.attempt (Sheet.atomic body.onSheet))).onSheet

end Routine

end LiquidityPools
