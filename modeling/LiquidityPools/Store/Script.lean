import LiquidityPools.Snapshot
import LiquidityPools.Store.Walk

/-!
Scripts that edit a store directly, and the replies to them. Every atomic block takes in the same
further members, which record what they are asked to do and give marks of their own counting.
-/

namespace LiquidityPools.Store.Script

inductive Request where
  | checkpoint | rollback | commit
  deriving DecidableEq, Repr

structure Record where
  member : Nat
  request : Request
  mark : Nat
  deriving DecidableEq, Repr

structure Desk where
  store : Store := {}
  given : List Nat := []
  records : List Record := []

def Desk.storePlace : Lens Desk Store := ⟨Desk.store, fun d s => { d with store := s }⟩

def Desk.note (member : Nat) (request : Request) (mark : Nat) (d : Desk) : Desk :=
  { d with records := d.records ++ [⟨member, request, mark⟩] }

def recorder (i : Nat) : Member Desk where
  checkpoint d :=
    let mark := d.given.getD i 0 + 1
    (mark, { d with given := d.given.set i mark }.note i .checkpoint mark)
  rollback mark := Action.modify (Desk.note i .rollback mark)
  commit mark d := d.note i .commit mark

def recorders (d : Desk) : List (Member Desk) := (List.range d.given.length).map recorder

mutual

inductive Command where
  | insertPool (market : Market) (pool : Except Fault Pool)
  | putPool (market : Market) (pool : Except Fault Pool)
  | getPool (market : Market)
  | hasPool (market : Market)
  | markets (after : Option Market)
  | putPosition (market : Market) (provider : Account) (position : Except Fault Position)
  | getPosition (market : Market) (provider : Account)
  | hasPosition (market : Market) (provider : Account)
  | count (market : Market)
  | page (market : Market) (after : Option Account) (limit : Value)
  /-- Walks through the positions, and runs the steps right after item number `pause`, if that is
  one. -/
  | iterate (market : Market) (pageSize : Value) (pause : Option Int) (steps : List Step)
  | rollback (mark : Int)
  | commit (mark : Int)
  | atomic (steps : List Step)
  | summary
  | snapshot (version : Value)
  | fail (message : String)

inductive Step where
  | mk (command : Command) (raises : Bool)

end

instance : Inhabited Step := ⟨.mk .summary false⟩

mutual

inductive Answer where
  | nothing
  | pool (pool : Option Pool)
  | position (position : Position)
  | flag (b : Bool)
  | count (n : Nat)
  | markets (markets : List Market)
  | positions (positions : List (Account × Position))
  | text (s : String)
  | snapshot (snapshot : Snapshot)
  | block (replies : List Reply) (ended : Except Fault Unit)

inductive Reply where
  | mk (answer : Except Fault Answer) (records : List Record) (store : Store)

end

/-- The reply to a step that ended like this. A block that raises answers with its fault alone. -/
def conclude (raises : Bool) (outcome : Except Fault Answer) (d : Desk) :
    Reply × Option Fault × Desk :=
  let outcome := match raises, outcome with
    | true, .ok (.block _ (.error fault)) => .error fault
    | _, outcome => outcome
  let fault := match raises, outcome with
    | true, .error fault => some fault
    | _, _ => none
  (.mk outcome d.records d.store, fault, { d with records := [] })

def ending : Option Fault → Except Fault Unit
  | some fault => .error fault
  | none => .ok ()

mutual

def perform : Command → Action Desk Answer
  | .insertPool market pool => do
    Desk.storePlace.change (insertPool market (← pool))
    pure .nothing
  | .putPool market pool => do
    Desk.storePlace.change (putPool market (← pool))
    pure .nothing
  | .getPool market => .pool <$> Action.read (·.store.pool? market)
  | .hasPool market => .flag <$> Action.read (·.store.hasPool market)
  | .markets after => .markets <$> Action.read (·.store.markets after)
  | .putPosition market provider position => do
    let position ← position
    Action.modify (Desk.storePlace.modify (putPosition market provider position))
    pure .nothing
  | .getPosition market provider => .position <$> Action.read (·.store.position market provider)
  | .hasPosition market provider => .flag <$> Action.read (·.store.hasPosition market provider)
  | .count market => .count <$> Action.read (·.store.positionCount market)
  | .page market after limit => do
    let limit ← limitOf limit
    .positions <$> Action.read (·.store.page market after limit)
  | .iterate market pageSize pause steps => do
    let pageSize ← limitOf pageSize
    let walk : Walk := { market, pageSize }
    match (pause.filter (0 ≤ ·)).map Int.toNat with
    | none => .positions <$> Action.read (walk.rest ·.store)
    | some pause =>
      let (before, walk) ← Action.read (walk.take ·.store (pause + 1))
      if before.length ≤ pause then pure (.positions before) else
        let fault : Option Fault ← fun d =>
          let (_, fault, d) := runAll steps d
          (.ok fault, d)
        ending fault
        .positions <$> Action.read fun d => before ++ walk.rest d.store
  | .rollback mark => do
    Desk.storePlace.zoom (rollbackTo mark)
    pure .nothing
  | .commit mark => do
    Action.modify (Desk.storePlace.modify (commitTo mark))
    pure .nothing
  | .atomic steps => fun d =>
    let depth := depthOf Desk.storePlace
    let (marks, d) := Atomic.enter depth (member Desk.storePlace :: recorders d) d
    let (replies, fault, d) := runAll steps d
    let (ended, d) := Atomic.leave depth marks (ending fault) d
    (.ok (.block replies ended), d)
  | .summary => .text <$> Action.read (·.store.summary)
  | .snapshot version => fun d => (.snapshot <$> Snapshot.ofStoreAt d.store version, d)
  | .fail message => Action.fail (.transfer (.declared message))

def runStep : Step → Desk → Reply × Option Fault × Desk
  | .mk command raises, d =>
    let (outcome, d) := perform command d
    conclude raises outcome d

def runAll : List Step → Desk → List Reply × Option Fault × Desk
  | [], d => ([], none, d)
  | step :: rest, d =>
    match runStep step d with
    | (reply, some fault, d) => ([reply], some fault, d)
    | (reply, none, d) =>
      let (replies, fault, d) := runAll rest d
      (reply :: replies, fault, d)

end

def run (members : Nat) (steps : List Step) : List Reply :=
  (runAll steps { given := List.replicate members 0 }).1

end LiquidityPools.Store.Script
