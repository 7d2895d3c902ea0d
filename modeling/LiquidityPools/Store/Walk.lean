import LiquidityPools.Store

/-!
Walking through the positions of a market while the store may change. A walk fetches one page at a
time, and only when it has handed out the page before; what it hands out is what the page held when
it was fetched. The next page starts after the last provider handed out.
-/

namespace LiquidityPools

structure Walk where
  market : Market
  pageSize : Nat
  pending : List (Account × Position) := []
  /-- The provider handed out last. -/
  cursor : Option Account := none
  deriving DecidableEq, Repr

namespace Walk

/-- The next position, and the walk after it; nothing once a page comes back empty. -/
def next (s : Store) (w : Walk) : Option ((Account × Position) × Walk) :=
  let pending := if w.pending.isEmpty then s.page w.market w.cursor w.pageSize else w.pending
  match pending with
  | [] => none
  | item :: rest => some (item, { w with pending := rest, cursor := some item.1 })

def take (s : Store) : (n : Nat) → Walk → List (Account × Position) × Walk
  | 0, w => ([], w)
  | n + 1, w =>
    match w.next s with
    | none => ([], w)
    | some (item, w) =>
      let (items, w) := take s n w
      (item :: items, w)

def rest (s : Store) (w : Walk) : List (Account × Position) :=
  (w.take s (w.pending.length + s.positionCount w.market)).1

end Walk

end LiquidityPools
