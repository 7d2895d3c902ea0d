import LiquidityPools.Action
import LiquidityPools.Table

/-!
Balances by account and asset. Only balances other than zero are kept. A balance may be bounded by a
cap; a change that would leave it negative or above the cap is refused and changes nothing.
-/

namespace LiquidityPools

structure Balances where
  table : Table (Account × Asset) Nat := ∅
  cap : Option Cap := none
  deriving DecidableEq

instance : Inhabited Balances := ⟨{}⟩

namespace Balances

def get (b : Balances) (account : Account) (asset : Asset) : Nat :=
  (b.table.get? (account, asset)).getD 0

def put (b : Balances) (account : Account) (asset : Asset) (amount : Nat) : Balances :=
  { b with
    table := if amount = 0 then b.table.erase (account, asset)
      else b.table.insert (account, asset) amount }

/-- The cap, if it refuses an amount. -/
def exceeded? (b : Balances) (amount : Int) : Option Cap := b.cap.filter (·.largest < amount)

def set (b : Balances) (account : Account) (asset : Asset) (amount : Int) :
    Except BalanceFault Balances :=
  if amount < 0 then .error (.negative amount)
  else match b.exceeded? amount with
    | some cap => .error (.overWidth amount cap)
    | none => .ok (b.put account asset amount.toNat)

def add (b : Balances) (account : Account) (asset : Asset) (delta : Int) :
    Except BalanceFault Balances :=
  let current : Int := b.get account asset
  if current + delta < 0 then .error (.insufficient current delta)
  else b.set account asset (current + delta)

def subtract (b : Balances) (account : Account) (asset : Asset) (delta : Int) :
    Except BalanceFault Balances :=
  if delta < 0 then .error (.negativeDelta delta) else b.add account asset (-delta)

def total (b : Balances) (asset : Asset) : Nat :=
  b.table.entries.foldr (fun e rest => if e.1.2 = asset then e.2 + rest else rest) 0

def summary (b : Balances) : String := s!"BalanceTable({b.table.size} entries)"

theorem get_put (b : Balances) (a c : Account) (x y : Asset) (n : Nat) :
    (b.put a x n).get c y = if (c, y) = (a, x) then n else b.get c y := by
  unfold put get
  simp only
  split
  next h => subst h; rw [Table.get?_erase]; split <;> rfl
  next => rw [Table.get?_insert]; split <;> rfl

end Balances

end LiquidityPools
