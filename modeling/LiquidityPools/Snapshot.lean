import LiquidityPools.Canonical
import LiquidityPools.Digest.Tag
import LiquidityPools.Store.Walk

/-!
Snapshots: the pools of a store, and the positions of the markets that have one, as data in market
and provider order. A snapshot's commitment is the digest of its canonical text behind a tag, so it
does not depend on the order in which the store was written.
-/

namespace LiquidityPools

structure Snapshot where
  version : Nat
  data : Value
  deriving Repr

namespace Snapshot

def currentVersion : Nat := 1

def object (fields : List (String × Value)) : Value :=
  .map (fields.map fun (key, value) => (.str key, value))

def poolEntry (market : Market) (pool : Pool) : Value :=
  object
    [("base", .int market.base), ("quote", .int market.quote),
      ("base_reserve", .int pool.baseReserve), ("quote_reserve", .int pool.quoteReserve),
      ("collected_base_fees", .int pool.baseFees), ("collected_quote_fees", .int pool.quoteFees)]

def positionEntry (market : Market) (provider : Account) (position : Position) : Value :=
  object
    [("base", .int market.base), ("quote", .int market.quote), ("provider", .str provider),
      ("base_contributed", .int position.base), ("quote_contributed", .int position.quote)]

def poolEntries (s : Store) : List Value :=
  s.pools.entries.map fun (market, pool) => poolEntry market pool

def pageSize : Nat := 256

def positionEntries (s : Store) : List Value :=
  s.pools.keys.flatMap fun market =>
    (Walk.rest s { market, pageSize }).map fun (provider, position) =>
      positionEntry market provider position

def ofStore (s : Store) (version : Nat := currentVersion) : Snapshot where
  version
  data := object
    [("version", .int version), ("pools", .list (poolEntries s)),
      ("positions", .list (positionEntries s))]

def ofStoreAt (s : Store) (version : Value) : Except Fault Snapshot := do
  pure (ofStore s (← Digest.versionOf version))

def text (snapshot : Snapshot) : Except Fault String := Canonical.text snapshot.data

/-- The bytes that the commitment is the digest of. -/
def payload (snapshot : Snapshot) : Except Fault (List UInt8) := do
  pure (Digest.tag "amm_snapshot" snapshot.version ++ (← Canonical.bytes snapshot.data))

def commitment (snapshot : Snapshot) : Except Fault (List UInt8) :=
  Sha256.digest <$> snapshot.payload

end Snapshot

end LiquidityPools
