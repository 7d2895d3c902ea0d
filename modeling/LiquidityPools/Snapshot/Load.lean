import LiquidityPools.Market.Check
import LiquidityPools.Snapshot

/-!
Loading a snapshot. Every part of it is checked: the bounds on its size first, then each pool, then
each position, which has to belong to one of the pools. What the snapshot holds besides is ignored,
but counts towards its size and must have a canonical text.
-/

namespace LiquidityPools.Snapshot

/-- What a snapshot may hold at most; each bound has yet to be checked. -/
structure Bounds where
  bytes : Value := .int 4000000
  pools : Value := .int 50000
  positions : Value := .int 200000
  textLength : Value := .int 512

def boundOf (name : String) : Value → Except Fault Nat
  | .int n => if 0 < n then .ok n.toNat else .error (.snapshot (.boundNotPositive name))
  | _ => .error (.snapshot (.boundNotPositive name))

def entriesOf (name : String) (most : Nat) : Value → Except Fault (List Value)
  | .null => .ok []
  | .list items =>
    if most < items.length then .error (.snapshot (.tooMany name items.length most)) else .ok items
  | _ => .error (.snapshot (.notList name))

def checkVersion : Value → Except Fault Unit
  | .int n =>
    if n ≤ 0 then .error (.snapshot .versionNotPositive)
    else if n = currentVersion then .ok ()
    else .error (.snapshot (.versionUnknown n))
  | _ => .error (.snapshot .versionNotPositive)

def natOf (name : String) (value : Value) : Except Fault Nat := do
  let n ← value.integer name
  if n < 0 then .error (.snapshot (.negative name)) else pure n.toNat

def marketOf (fields : List (Value × Value)) : Except Fault Market :=
  (Market.ofValues (Value.fieldOrNull "base" fields) (Value.fieldOrNull "quote" fields)).mapError
    .market

def addPool (store : Store) (entry : Value) : Except Fault Store :=
  match entry with
  | .map fields => do
    let market ← marketOf fields
    if store.hasPool market then .error (.snapshot (.duplicatePool market))
    let absent : Value := .int 0
    let baseReserve ← natOf "pool.base_reserve" (Value.fieldOrNull "base_reserve" fields)
    let quoteReserve ← natOf "pool.quote_reserve" (Value.fieldOrNull "quote_reserve" fields)
    let baseFees ← natOf "pool.collected_base_fees"
      ((Value.field? "collected_base_fees" fields).getD absent)
    let quoteFees ← natOf "pool.collected_quote_fees"
      ((Value.field? "collected_quote_fees" fields).getD absent)
    Store.insertPool market { baseReserve, quoteReserve, baseFees, quoteFees } store
  | _ => .error (.snapshot (.entryNotMap "pools"))

def providerOf (textLength : Nat) : Value → Except Fault Account
  | .str s =>
    if s.isEmpty then .error (.snapshot .noProvider)
    else if textLength < s.length then .error (.snapshot .providerTooLong)
    else .ok s
  | _ => .error (.snapshot .noProvider)

def addPosition (textLength : Nat) (store : Store) (entry : Value) : Except Fault Store :=
  match entry with
  | .map fields => do
    let market ← marketOf fields
    if !store.hasPool market then .error (.snapshot (.unknownMarket market))
    let provider ← providerOf textLength (Value.fieldOrNull "provider" fields)
    if store.hasPosition market provider then
      .error (.snapshot (.duplicatePosition market provider))
    let base ← natOf "position.base_contributed" (Value.fieldOrNull "base_contributed" fields)
    let quote ← natOf "position.quote_contributed" (Value.fieldOrNull "quote_contributed" fields)
    pure (Store.putPosition market provider ⟨base, quote⟩ store)
  | _ => .error (.snapshot (.entryNotMap "positions"))

def load (snapshot : Value) (bounds : Bounds := {}) : Except Fault Store :=
  match snapshot with
  | .map fields => do
    let mostBytes ← boundOf "max_snapshot_bytes" bounds.bytes
    let mostPools ← boundOf "max_pools" bounds.pools
    let mostPositions ← boundOf "max_positions" bounds.positions
    let textLength ← boundOf "max_str_len" bounds.textLength
    checkVersion ((Value.field? "version" fields).getD (.int currentVersion))
    let pools ← entriesOf "pools" mostPools (Value.fieldOrNull "pools" fields)
    let positions ← entriesOf "positions" mostPositions (Value.fieldOrNull "positions" fields)
    let bytes ← Canonical.bytes snapshot
    if mostBytes < bytes.length then .error (.snapshot .tooLarge)
    let store ← pools.foldlM addPool {}
    let store ← positions.foldlM (addPosition textLength) store
    pure (store.commit 0)
  | _ => .error (.snapshot .notMap)

end LiquidityPools.Snapshot
