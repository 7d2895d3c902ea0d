import LiquidityPools.Atomic
import LiquidityPools.Pool
import LiquidityPools.Position
import LiquidityPools.Table

/-!
The store of pools and positions, with an undo journal of its writes, the newest first. Beside the
positions it keeps each market's providers in order, for paging. Rolling back to a mark undoes the
writes made since; committing drops their undo entries. The store also counts the atomic units that
are open.
-/

namespace LiquidityPools

inductive Undo where
  | pool (market : Market) (before : Option Pool)
  | position (market : Market) (provider : Account) (before : Option Position)
  deriving DecidableEq, Repr

structure Store where
  pools : Table Market Pool := ∅
  positions : Table (Market × Account) Position := ∅
  providers : Table Market (List Account) := ∅
  journal : List Undo := []
  depth : Nat := 0
  deriving DecidableEq

instance : Inhabited Store := ⟨{}⟩

namespace Store

section Pools

def pool? (s : Store) (market : Market) : Option Pool := s.pools.get? market

def hasPool (s : Store) (market : Market) : Bool := (s.pool? market).isSome

def writePool (s : Store) (market : Market) (pool : Pool) (before : Option Pool) : Store :=
  { s with pools := s.pools.insert market pool, journal := .pool market before :: s.journal }

def insertPool (market : Market) (pool : Pool) (s : Store) : Except Fault Store :=
  match s.pool? market with
  | some _ => .error (.poolTaken market)
  | none => .ok (s.writePool market pool none)

def putPool (market : Market) (pool : Pool) (s : Store) : Except Fault Store :=
  match s.pool? market with
  | some before => .ok (s.writePool market pool (some before))
  | none => .error (.poolAbsent market)

def markets (s : Store) (after : Option Market := none) : List Market :=
  match after with
  | none => s.pools.keys
  | some cursor => s.pools.keys.dropWhile fun m => (compare m cursor).isLE

end Pools

section Positions

def position? (s : Store) (market : Market) (provider : Account) : Option Position :=
  s.positions.get? (market, provider)

/-- A provider's position; the empty one if none was recorded. -/
def position (s : Store) (market : Market) (provider : Account) : Position :=
  (s.position? market provider).getD .empty

def hasPosition (s : Store) (market : Market) (provider : Account) : Bool :=
  (s.position? market provider).isSome

def providersOf (s : Store) (market : Market) : List Account := (s.providers.get? market).getD []

def insertAccount (a : Account) : List Account → List Account
  | [] => [a]
  | b :: rest => if (compare a b).isLT then a :: b :: rest else b :: insertAccount a rest

def putPosition (market : Market) (provider : Account) (position : Position) (s : Store) : Store :=
  let before := s.position? market provider
  { s with
    positions := s.positions.insert (market, provider) position
    providers := match before with
      | some _ => s.providers
      | none => s.providers.insert market (insertAccount provider (s.providersOf market))
    journal := .position market provider before :: s.journal }

def positionCount (s : Store) (market : Market) : Nat := (s.providersOf market).length

def withPosition (s : Store) (market : Market) (provider : Account) : Account × Position :=
  (provider, s.position market provider)

def positionsOf (s : Store) (market : Market) : List (Account × Position) :=
  (s.providersOf market).map (s.withPosition market)

def page (s : Store) (market : Market) (after : Option Account) (limit : Nat) :
    List (Account × Position) :=
  let providers := s.providersOf market
  let rest := match after with
    | none => providers
    | some cursor => providers.dropWhile fun p => (compare p cursor).isLE
  (rest.take limit).map (s.withPosition market)

def limitOf : Value → Except Fault Nat
  | .int n => if 0 < n then .ok n.toNat else .error (.pageLimit (.int n))
  | other => .error (.pageLimit other)

end Positions

section Journal

def undo (s : Store) : Undo → Store
  | .pool market none => { s with pools := s.pools.erase market }
  | .pool market (some before) => { s with pools := s.pools.insert market before }
  | .position market provider (some before) =>
    { s with positions := s.positions.insert (market, provider) before }
  | .position market provider none =>
    let rest := (s.providersOf market).erase provider
    { s with
      positions := s.positions.erase (market, provider)
      providers := if rest.isEmpty then s.providers.erase market
        else s.providers.insert market rest }

def checkpoint (s : Store) : Nat := s.journal.length

def rollback (mark : Nat) (s : Store) : Store :=
  let newer := s.journal.length - mark
  { (s.journal.take newer).foldl undo s with journal := s.journal.drop newer }

def commit (mark : Nat) (s : Store) : Store :=
  { s with journal := s.journal.drop (s.journal.length - mark) }

/-- `rollback` to a mark that no checkpoint may have given. Below zero all writes are undone, and
then there is none left to undo. -/
def rollbackTo (mark : Int) : Action Store Unit := do
  Action.modify (rollback mark.toNat)
  if mark < 0 then Action.fail .journalEmpty

def commitTo (mark : Int) (s : Store) : Store :=
  s.commit (if mark < 0 then s.journal.length + mark else mark).toNat

end Journal

section Units

variable {σ α : Type}

def member (place : Lens σ Store) : Member σ where
  checkpoint s := ((place.get s).checkpoint, s)
  rollback n := place.zoom (Action.modify (rollback n))
  commit n s := place.modify (commit n) s

def depthOf (place : Lens σ Store) : Depth σ where
  get s := (place.get s).depth
  set s n := place.set s { place.get s with depth := n }

def atomic (place : Lens σ Store) (others : List (Member σ)) (body : Action σ α) : Action σ α :=
  Atomic.run (depthOf place) (member place :: others) body

end Units

def summary (s : Store) : String :=
  s!"StateStore({s.pools.size} pools, {s.positions.size} positions)"

end Store

end LiquidityPools
