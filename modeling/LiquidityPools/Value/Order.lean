import LiquidityPools.Fault

/-!
Comparing untyped data. Numbers compare by size, texts and bytes item by item, dates and moments by
time, tuples by their first items that differ. All else has no order, and asking for one is a fault;
what is no number stands in no relation to any.
-/

namespace LiquidityPools.Value

def compareBytes : List UInt8 → List UInt8 → Ordering
  | [], [] => .eq
  | [], _ :: _ => .lt
  | _ :: _, [] => .gt
  | a :: rest, b :: others => (compare a.toNat b.toNat).then (compareBytes rest others)

def compareQuantities (x y : Number.Quantity) : Option Ordering :=
  if x.lt y then some .lt else if x.eq y then some .eq else if y.lt x then some .gt else none

def compareMoments (m n : Moment) : Except Fault (Option Ordering) :=
  if m.comparable n then .ok (some (compare m.instant n.instant)) else .error .momentsMixed

mutual

/-- How two values are ordered; the relation is what a fault names. -/
def order (relation : Relation) : Value → Value → Except Fault (Option Ordering)
  | .str s, .str t => .ok (some (compare s t))
  | .bytes s, .bytes t => .ok (some (compareBytes s t))
  | .date d, .date e => .ok (some (compare d.number e.number))
  | .moment m, .moment n => compareMoments m n
  | .date _, .moment _ | .moment _, .date _ => .error .dateWithMoment
  | .tuple items, .tuple others => orderAll relation items others
  | a, b =>
    match a.quantity?, b.quantity? with
    | some x, some y => .ok (compareQuantities x y)
    | _, _ => .error (.notOrdered relation a.kindName b.kindName)

def orderAll (relation : Relation) : List Value → List Value → Except Fault (Option Ordering)
  | [], [] => .ok (some .eq)
  | [], _ :: _ => .ok (some .lt)
  | _ :: _, [] => .ok (some .gt)
  | a :: rest, b :: others =>
    if sameKey a b then orderAll relation rest others else order relation a b

end

def holds (relation : Relation) (a b : Value) : Except Fault Bool :=
  (order relation a b).map fun o => o.any relation.allows

def insertInOrder (value : Value) : List Value → Except Fault (List Value)
  | [] => .ok [value]
  | other :: rest => do
    if ← holds .lt value other then pure (value :: other :: rest)
    else pure (other :: (← insertInOrder value rest))

def inOrder (values : List Value) : Except Fault (List Value) :=
  values.foldlM (fun sorted value => insertInOrder value sorted) []

end LiquidityPools.Value
