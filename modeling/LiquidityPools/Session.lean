import LiquidityPools.Session.Script
import LiquidityPools.Snapshot.Load

/-!
Running a script against an exchange. The carrier of a session first runs the armed hooks that match
a transfer, each only once, then lets the refusal rules decide, and then moves the asset. A hook's
step may do anything, so transfers nest. Every step that runs inside another comes from the script,
and none runs twice, so the size of the script bounds how deep they nest.
-/

namespace LiquidityPools

namespace Session

structure Hook where
  number : Nat
  rule : Rule
  step : Step

structure Host where
  refusals : List Rule := []
  hooks : List Hook := []
  armed : Nat := 0
  reported : Nat := 0
  hooked : List Reply := []

end Session

abbrev Session := Exchange Session.Host

namespace Session

def start (ledgerCap : Option Cap) (config : Config) (store : Store) : Session where
  config
  store
  ledger := .withCap ledgerCap
  host := {}

def updateHost (f : Host → Host) (x : Session) : Session := { x with host := f x.host }

def mint (asset : Asset) (account : Account) (amount : Int) : Action Session Unit :=
  Exchange.ledgerPlace.change (Ledger.mint asset account amount)

abbrev Runner := Step → Session → Reply × Option Fault × Session

def runAll (run : Runner) : List Step → Session → List Reply × Option Fault × Session
  | [], x => ([], none, x)
  | step :: rest, x =>
    match run step x with
    | (reply, some fault, x) => ([reply], some fault, x)
    | (reply, none, x) =>
      let (replies, fault, x) := runAll run rest x
      (reply :: replies, fault, x)

section Transfers

def arm (rule : Rule) (step : Step) (x : Session) : Session :=
  updateHost (fun h =>
    { h with hooks := h.hooks ++ [⟨h.armed, rule, step⟩], armed := h.armed + 1 }) x

def disarm (number : Nat) (x : Session) : Session :=
  updateHost (fun h => { h with hooks := h.hooks.filter (·.number != number) }) x

/-- Runs a hook's step. Its reply is kept for the reply to the step that caused the transfer. -/
def runHook (run : Runner) (step : Step) : Action Session Unit := fun x =>
  let before := x.host.hooked
  let (reply, fault, x) := run step (updateHost (fun h => { h with hooked := [] }) x)
  let x := updateHost (fun h => { h with hooked := before ++ [reply] }) x
  match fault with
  | some fault => (.error fault, x)
  | none => (.ok (), x)

def runHooks (run : Runner) (asset : Asset) (source dest : Account) (amount : Value) :
    List Hook → Action Session Unit
  | [] => pure ()
  | hook :: rest => do
    let armed ← Action.read (·.host.hooks.any (·.number == hook.number))
    if armed then
      if ← hook.rule.applies asset source dest amount then
        Action.modify (disarm hook.number)
        runHook run hook.step
    runHooks run asset source dest amount rest

def transfer (run : Runner) (asset : Asset) (source dest : Account) (amount : Value) :
    Action Session Unit := do
  runHooks run asset source dest amount (← Action.read (·.host.hooks))
  if ← Rule.anyApplies (← Action.read (·.host.refusals)) asset source dest amount then
    Action.fail (.transfer (.refused asset source dest amount))
  Exchange.ledgerPlace.change (Ledger.transfer asset source dest amount)

def carrier (run : Runner) (patience : Nat) : Carrier Host where
  transfer asset source dest amount := transfer run asset source dest (.int amount)
  patience

end Transfers

section Steps

def paidToOf (report : Payout.Report) : Value → List Payout
  | .str account => report.paidTo account
  | _ => []

def perform (run : Runner) (via : Carrier Host) : Command → Action Session Answer
  | .create caller base quote baseAmount quoteAmount =>
    .pool <$> Exchange.createOf via caller base quote baseAmount quoteAmount
  | .deposit caller market baseAmount quoteAmount =>
    .position <$> Exchange.depositOf via caller market baseAmount quoteAmount
  | .withdraw caller market baseAmount quoteAmount =>
    .position <$> Exchange.withdrawOf via caller market baseAmount quoteAmount
  | .trade side caller market amount least =>
    .quote <$> Exchange.tradeOf via side caller market amount least
  | .pool market => do
    let market ← Exchange.marketOfPair market
    .pool <$> Exchange.requirePool market
  | .position market provider => do
    let market ← Exchange.marketOfPair market
    .position <$> Action.read (·.store.position market provider)
  | .markets => .markets <$> Action.read (·.store.markets)
  | .price market => do
    let market ← Exchange.marketOfPair market
    let pool ← Exchange.requirePool market
    pure (.price pool.price.1 pool.price.2)
  | .fee amount => do
    let config ← Action.read (·.config)
    let fee ← config.feeRate.feeOf config.cap amount
    pure (.amount fee)
  | .balance asset account => .amount <$> Action.read (·.balance asset account)
  | .total asset => .amount <$> Action.read (·.ledger.total asset)
  | .call caller call => .called <$> Exchange.call via caller call
  | .callOrFail caller call => .events <$> Exchange.callOrFail via caller call
  | .unit steps => fun x =>
    let (marks, x) := x.enter
    let (replies, fault, x) := runAll run steps x
    let outcome : Except Fault Unit := match fault with
      | some fault => .error fault
      | none => .ok ()
    let (ended, x) := Exchange.leave marks outcome x
    (.ok (.unit replies (ended.map (·.2))), x)
  | .mint asset account amount => do
    mint asset account amount
    pure .nothing
  | .transfer asset source dest amount => do
    transfer run asset source dest amount
    pure .nothing
  | .refuse rules => do
    Action.modify (updateHost fun h => { h with refusals := rules })
    pure .nothing
  | .hook rule step => do
    Action.modify (arm rule step)
    pure .nothing
  | .distribute after most paidTo => do
    let report ← Exchange.distributeOf via after most
    pure (.report report (paidTo.map (paidToOf report)))
  | .distributeOrFail after most paidTo => do
    let report ← Exchange.distributeOrFail via after most
    pure (.report report (paidTo.map (paidToOf report)))
  | .pending after => .markets <$> Action.read (·.pendingMarkets after)
  | .snapshot version => fun x => (.snapshot <$> Snapshot.ofStoreAt x.store version, x)
  | .ofKind kind market => .events <$> Action.read (Event.ofKind kind market ·.log)
  | .fail message => Action.fail (.transfer (.declared message))

/-- The reply to a step that ended like this. A unit that raises answers with its fault alone. -/
def conclude (raises : Bool) (outcome : Except Fault Answer) (x : Session) :
    Reply × Option Fault × Session :=
  let outcome := match raises, outcome with
    | true, .ok (.unit _ (.error fault)) => .error fault
    | _, outcome => outcome
  let fault := match raises, outcome with
    | true, .error fault => some fault
    | _, _ => none
  (.mk outcome (x.log.drop x.host.reported) x.store x.ledger x.host.hooked, fault,
    updateHost (fun h => { h with reported := x.log.length, hooked := [] }) x)

def runStep : (bound : Nat) → Runner
  | 0 => fun _ x => conclude false (.ok .nothing) x
  | bound + 1 => fun step x =>
    let run := runStep bound
    let (outcome, x) := perform run (carrier run bound) step.command x
    conclude step.raises outcome x

def run (steps : List Step) (x : Session) : List Reply :=
  (runAll (runStep (stepsSize steps + 1)) steps x).1

end Steps

end Session

end LiquidityPools
