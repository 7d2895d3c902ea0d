import LiquidityPools.Proofs.Carrier

/-!
Programs: what a host may do with an exchange. A program runs operations with untyped arguments and
payout runs, one after the other, inside units of its own, catching faults or letting them go on.
Every program commits in an orderly way; an operation or a unit that fails leaves nothing behind,
and at the outermost level a success leaves nothing in the journals.
-/

namespace LiquidityPools

inductive Request where
  | create (caller base quote baseAmount quoteAmount : Value)
  | deposit (caller market baseAmount quoteAmount : Value)
  | withdraw (caller market baseAmount quoteAmount : Value)
  | trade (side : Side) (caller market amount least : Value)
  | call (caller data : Value)
  | callOrFail (caller data : Value)
  | settle (market : Market)

inductive Program where
  | done
  | fail (fault : Fault)
  | request (r : Request)
  | distribute (after : Option Market) (most : Value)
  | distributeOrFail (after : Option Market) (most : Value)
  | seq (first second : Program)
  | attempt (body : Program)
  | unit (body : Program)

variable {ρ : Type} (carrier : Carrier ρ)

def Request.run : Request → Action (Exchange ρ) Unit
  | .create caller base quote b q =>
    (fun _ => ()) <$> Exchange.createOf carrier caller base quote b q
  | .deposit caller market b q => (fun _ => ()) <$> Exchange.depositOf carrier caller market b q
  | .withdraw caller market b q => (fun _ => ()) <$> Exchange.withdrawOf carrier caller market b q
  | .trade side caller market amount least =>
    (fun _ => ()) <$> Exchange.tradeOf carrier side caller market amount least
  | .call caller data => (fun _ => ()) <$> Exchange.call carrier caller data
  | .callOrFail caller data => (fun _ => ()) <$> Exchange.callOrFail carrier caller data
  | .settle market => (fun _ => ()) <$> Exchange.settle carrier market

namespace Program

def run : Program → Action (Exchange ρ) Unit
  | .done => pure ()
  | .fail fault => Action.fail fault
  | .request r => r.run carrier
  | .distribute after most => (fun _ => ()) <$> Exchange.distributeOf carrier after most
  | .distributeOrFail after most => (fun _ => ()) <$> Exchange.distributeOrFail carrier after most
  | .seq first second => first.run >>= fun _ => second.run
  | .attempt body => (fun _ => ()) <$> Action.attempt body.run
  | .unit body => Exchange.unit body.run

def IsUnit : Program → Prop
  | .request _ | .unit _ => True
  | _ => False

end Program

variable {carrier}

open Exchange

theorem Request.allOrNothing (journaled : carrier.Journaled) (r : Request) :
    AllOrNothing (r.run carrier) := by
  cases r with
  | create caller base quote b q => exact (allOrNothing_createOf journaled ..).map _
  | deposit caller market b q => exact (allOrNothing_depositOf journaled ..).map _
  | withdraw caller market b q => exact (allOrNothing_withdrawOf journaled ..).map _
  | trade side caller market amount least => exact (allOrNothing_tradeOf journaled ..).map _
  | call caller data => exact (allOrNothing_call journaled ..).map _
  | callOrFail caller data => exact (allOrNothing_callOrFail journaled ..).map _
  | settle market => exact (allOrNothing_settle journaled market).map _

namespace Program

theorem orderly (journaled : carrier.Journaled) (p : Program) : Orderly (p.run carrier) := by
  induction p with
  | done => exact orderly_pure ()
  | fail fault => exact orderly_fail fault
  | request r => exact (r.allOrNothing journaled).orderly
  | distribute after most => exact (orderly_distributeOf journaled after most).map _
  | distributeOrFail after most => exact (orderly_distributeOrFail journaled after most).map _
  | seq first second ih ih' => exact ih.bind fun _ => ih'
  | attempt body ih => exact ih.attempt.map _
  | unit body ih => exact (allOrNothing_unit ih.journaled).orderly

theorem allOrNothing (journaled : carrier.Journaled) {p : Program} (single : p.IsUnit) :
    AllOrNothing (p.run carrier) := by
  cases p with
  | request r => exact r.allOrNothing journaled
  | unit body => exact allOrNothing_unit (body.orderly journaled).journaled
  | _ => exact single.elim

/-- What a host can make of a new exchange: it mints assets, and it runs programs. -/
inductive Reachable (carrier : Carrier ρ) (config : Config) : Exchange ρ → Prop
  | start (cap : Option Cap) (host : ρ) :
    Reachable carrier config (Exchange.fresh config { cap } host)
  | mint {x : Exchange ρ} {asset : Asset} {account : Account} {amount : Int} {l : Ledger}
    (reached : Reachable carrier config x) (minted : x.ledger.mint asset account amount = .ok l) :
    Reachable carrier config { x with ledger := l }
  | run {x : Exchange ρ} (reached : Reachable carrier config x) (p : Program) :
    Reachable carrier config (p.run carrier x).2

theorem Reachable.sound (journaled : carrier.Journaled) {config : Config} {x : Exchange ρ}
    (reached : Reachable carrier config x) :
    x.Sound ∧ x.config = config ∧ x.store.depth = 0 ∧ x.openUnits = [] := by
  induction reached with
  | start cap host => exact ⟨sound_fresh (.empty cap) config host, rfl, rfl, rfl⟩
  | @mint x asset account amount l _ minted ih =>
    obtain ⟨sound, config, depth, units⟩ := ih
    obtain ⟨balances, added, rfl⟩ := Ledger.balances_of_mint minted
    exact ⟨⟨sound.store, sound.ledger.add added⟩, config, depth, units⟩
  | @run x _ p ih =>
    obtain ⟨sound, config, depth, units⟩ := ih
    obtain ⟨events, follows⟩ := p.orderly journaled x sound
    refine ⟨follows.sound, follows.config.trans config, follows.depth.trans depth, ?_⟩
    rw [follows.openUnits, openUnits_deliver, units]
    rfl

/-- An operation or a unit that ends with a fault leaves pools, positions, providers, balances,
journals, log, open units and depth as they were; only the carrier remembers. One that is outermost
and ends well leaves both journals as long as they were. -/
theorem restored_or_committed (plain : carrier.Plain) {p : Program} (single : p.IsUnit)
    {x : Exchange ρ} (sound : x.Sound) :
    (∀ fault y, p.run carrier x = (.error fault, y) → ∃ host, y = { x with host }) ∧
      (∀ y, p.run carrier x = (.ok (), y) → x.store.depth = 0 →
        y.store.journal.length = x.store.journal.length ∧
          y.ledger.journal.length = x.ledger.journal.length) := by
  have step := p.allOrNothing plain.journaled single
  refine ⟨step.whole x sound, fun y done top => ?_⟩
  obtain ⟨events, follows⟩ := step.orderly x sound
  rw [done] at follows
  obtain ⟨store, ledger⟩ := follows.outermost top
  exact ⟨congrArg List.length store, congrArg List.length ledger⟩

def refusedCreation : Program :=
  .unit (.request (.create (.str "alice") (.int 1) (.int 2) (.int 100) (.int 200)))

def refuseQuote : Carrier.Refusal := fun asset _ _ _ => asset = 2

def aliceBalances : Balances := (Balances.put {} "alice" 1 100000).put "alice" 2 100000

theorem sound_aliceBalances : aliceBalances.Sound :=
  Balances.Sound.put (Balances.Sound.put (.empty none) "alice" 1 rfl) "alice" 2 rfl

theorem restored_after_refusal :
    let x : Exchange Unit := fresh .usual aliceBalances ()
    ∃ fault, refusedCreation.run (.refusing refuseQuote) x = (.error fault, x) := by
  intro x
  have failed : (refusedCreation.run (.refusing refuseQuote) x).1.isOk = false := by decide +kernel
  cases h : refusedCreation.run (.refusing refuseQuote) x with
  | mk outcome y =>
    rw [h] at failed
    cases outcome with
    | ok a => cases failed
    | error fault =>
      have single : refusedCreation.IsUnit := trivial
      obtain ⟨host, rfl⟩ := (restored_or_committed (Carrier.plain_refusing refuseQuote) single
        (sound_fresh sound_aliceBalances .usual ())).1 fault y h
      exact ⟨fault, rfl⟩

end Program

end LiquidityPools
