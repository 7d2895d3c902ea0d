import LiquidityPools.Atomic
import LiquidityPools.Ledger.Balances

/-!
A ledger of balances with an undo journal of the transfers made since the oldest open mark, the
newest first. New units come in by `mint`, which is not journaled. A transfer moves the exact amount
or is refused and changes nothing; undoing one can fail only if balances were changed past the
journal.
-/

namespace LiquidityPools

structure Movement where
  asset : Asset
  source : Account
  dest : Account
  amount : Nat
  deriving DecidableEq, Repr

structure Ledger where
  balances : Balances := {}
  journal : List Movement := []
  deriving DecidableEq

instance : Inhabited Ledger := ⟨{}⟩

namespace Ledger

def withCap (cap : Option Cap) : Ledger := { balances := { cap } }

def balance (l : Ledger) (asset : Asset) (account : Account) : Nat := l.balances.get account asset

def mint (asset : Asset) (account : Account) (amount : Int) (l : Ledger) : Except Fault Ledger :=
  match l.balances.add account asset amount with
  | .ok balances => .ok { l with balances }
  | .error cause => .error (.ofBalance cause)

/-- Moves an amount. The credit is tried first, so that a full destination is what is reported. -/
def move (asset : Asset) (source dest : Account) (amount : Nat) (l : Ledger) :
    Except Fault Ledger :=
  if amount = 0 ∨ source = dest then .ok l
  else if l.balance asset source < amount then
    .error (.transfer (.insufficientFunds asset source (l.balance asset source) amount))
  else
    match l.balances.add dest asset amount with
    | .error cause => .error (.transfer (.creditRejected cause))
    | .ok credited =>
      match credited.subtract source asset amount with
      | .error cause => .error (.balance cause)
      | .ok balances => .ok ⟨balances, ⟨asset, source, dest, amount⟩ :: l.journal⟩

def transfer (asset : Asset) (source dest : Account) (amount : Value) (l : Ledger) :
    Except Fault Ledger :=
  match amount with
  | .int n =>
    if n < 0 then .error (.transfer (.invalidAmount (.int n))) else l.move asset source dest n.toNat
  | other => .error (.transfer (.invalidAmount other))

def total (l : Ledger) (asset : Asset) : Nat := l.balances.total asset

def checkpoint (l : Ledger) : Nat := l.journal.length

/-- Takes the newest transfers off the journal and undoes them, debit before credit. What is undone
when a step fails stays undone. -/
def undo : Nat → Action Ledger Unit
  | 0 => pure ()
  | n + 1 => fun l =>
    match l.journal with
    | [] => (.ok (), l)
    | m :: journal =>
      match l.balances.subtract m.dest m.asset m.amount with
      | .error cause => (.error (.balance cause), { l with journal })
      | .ok debited =>
        match debited.add m.source m.asset m.amount with
        | .error cause => (.error (.balance cause), ⟨debited, journal⟩)
        | .ok balances => undo n ⟨balances, journal⟩

def rollback (mark : Nat) : Action Ledger Unit := fun l => undo (l.journal.length - mark) l

def commit (mark : Nat) (l : Ledger) : Ledger :=
  { l with journal := l.journal.drop (l.journal.length - mark) }

/-- `rollback` to a mark that no checkpoint may have given. Below zero all transfers are undone, and
then there is none left to undo. -/
def rollbackTo (mark : Int) : Action Ledger Unit := do
  rollback mark.toNat
  if mark < 0 then Action.fail .journalEmpty

def commitTo (mark : Int) (l : Ledger) : Ledger :=
  l.commit (if mark < 0 then l.journal.length + mark else mark).toNat

def member {σ : Type} (place : Lens σ Ledger) : Member σ where
  checkpoint s := ((place.get s).checkpoint, s)
  rollback n := place.zoom (rollback n)
  commit n s := place.modify (commit n) s

def summary (l : Ledger) : String := s!"InMemoryLedger({l.balances.summary})"

end Ledger

end LiquidityPools
