import LiquidityPools.Proofs.Block
import LiquidityPools.Proofs.Reentrancy

/-!
What is published. Every operation, every call, every payout run and every program is a block, over
any carrier whose transfers are blocks: one that moves assets or refuses, and one that calls back
into the exchange first.
-/

namespace LiquidityPools

open Exchange (Block Narration WholeNarration Quiet quiet_of_same)

variable {ρ : Type}

def Carrier.Narrated (carrier : Carrier ρ) : Type 1 :=
  ∀ asset source dest amount, Narration (carrier.transfer asset source dest amount)

theorem Carrier.quiet_direct (asset : Asset) (source dest : Account) (amount : Nat) :
    Quiet ((direct : Carrier ρ).transfer asset source dest amount) := by
  intro x
  simp only [direct, Lens.change]
  split <;> exact ⟨rfl, rfl⟩

def Carrier.Plain.narrated {carrier : Carrier ρ} (plain : carrier.Plain) : carrier.Narrated :=
  fun asset source dest amount => .quiet <| by
    intro x
    obtain ⟨host, ⟨cause, refused⟩ | carried⟩ := plain asset source dest amount x
    · rw [refused]
      exact ⟨rfl, rfl⟩
    · rw [carried]
      exact quiet_direct asset source dest amount _

namespace Exchange.Narration

variable {carrier : Carrier ρ} (narrated : carrier.Narrated)

section Requirements

def requirePool (market : Market) :
    Narration (Exchange.requirePool market : Action (Exchange ρ) Pool) :=
  .quiet <| quiet_of_same fun x => by unfold Exchange.requirePool; split <;> rfl

def requireBalance (asset : Asset) (account : Account) (amount : Nat) :
    Narration (Exchange.requireBalance asset account amount : Action (Exchange ρ) Unit) :=
  .quiet <| quiet_of_same fun x => by unfold Exchange.requireBalance; dsimp only; split <;> rfl

def insertPool (market : Market) (pool : Pool) :
    Narration (Exchange.insertPool market pool : Action (Exchange ρ) Unit) :=
  .quiet fun x => by unfold Exchange.insertPool Lens.change; split <;> exact ⟨rfl, rfl⟩

def putPool (market : Market) (pool : Pool) :
    Narration (Exchange.putPool market pool : Action (Exchange ρ) Unit) :=
  .quiet fun x => by unfold Exchange.putPool Lens.change; split <;> exact ⟨rfl, rfl⟩

def putPosition (market : Market) (provider : Account) (position : Position) :
    Narration (Exchange.putPosition market provider position : Action (Exchange ρ) Unit) :=
  .quiet fun x => by
    simp only [Exchange.putPosition, Action.modify_apply]
    split <;> exact ⟨rfl, rfl⟩

end Requirements

section Operations

variable (caller : Account) (market : Market) (base quote : Nat)

def openPool : Narration (Exchange.openPool carrier caller market base quote) :=
  .bind (.read _) fun _ =>
  .either (.fail _) <|
  .bind (requireBalance _ _ _) fun _ =>
  .bind (requireBalance _ _ _) fun _ =>
  .bind (.read _) fun _ =>
  .bind (narrated _ _ _ _) fun _ =>
  .bind (narrated _ _ _ _) fun _ =>
  .bind (insertPool _ _) fun _ =>
  .bind (.quiet fun _ => ⟨rfl, rfl⟩) fun _ =>
  .bind (.emit _) fun _ => .pure _

def addLiquidity : Narration (Exchange.addLiquidity carrier caller market base quote) :=
  .bind (requirePool _) fun _ =>
  .bind (requireBalance _ _ _) fun _ =>
  .bind (requireBalance _ _ _) fun _ =>
  .bind (.read _) fun _ =>
  .bind (.lift _) fun _ =>
  .bind (.lift _) fun _ =>
  .bind (.read _) fun _ =>
  .bind (.lift _) fun _ =>
  .bind (.lift _) fun _ =>
  .bind (.read _) fun _ =>
  .bind (narrated _ _ _ _) fun _ =>
  .bind (narrated _ _ _ _) fun _ =>
  .bind (putPool _ _) fun _ =>
  .bind (putPosition _ _ _) fun _ =>
  .bind (.emit _) fun _ => .pure _

def removeLiquidity : Narration (Exchange.removeLiquidity carrier caller market base quote) :=
  .bind (requirePool _) fun _ =>
  .bind (.read _) fun _ =>
  .either (.fail _) <|
  .bind (.read _) fun _ =>
  .bind (.lift _) fun _ =>
  .bind (.lift _) fun _ =>
  .bind (.lift _) fun _ =>
  .bind (.lift _) fun _ =>
  .bind (.read _) fun _ =>
  .bind (narrated _ _ _ _) fun _ =>
  .bind (narrated _ _ _ _) fun _ =>
  .bind (putPool _ _) fun _ =>
  .bind (putPosition _ _ _) fun _ =>
  .bind (.emit _) fun _ => .pure _

def swap (side : Side) (amount least : Nat) :
    Narration (Exchange.swap carrier side caller market amount least) :=
  .bind (requirePool _) fun _ =>
  .bind (requireBalance _ _ _) fun _ =>
  .bind (.read _) fun _ =>
  .bind (.lift _) fun _ =>
  .either (.fail _) <|
  .bind (.lift _) fun _ =>
  .bind (narrated _ _ _ _) fun _ =>
  .bind (narrated _ _ _ _) fun _ =>
  .bind (narrated _ _ _ _) fun _ =>
  .bind (putPool _ _) fun _ =>
  .bind (.emit _) fun _ => .pure _

end Operations

section Payout

variable (market : Market) (pool : Pool) (weights : Nat × Nat)

def payProvider (provider : Account) (position : Position) (tally : Payout.Tally) :
    Narration (Exchange.payProvider carrier market pool weights provider position tally) :=
  .bind (.read _) fun _ =>
  .bind (.lift _) fun _ =>
  .bind (.lift _) fun _ =>
  .either (.pure _) <|
  .bind (narrated _ _ _ _) fun _ =>
  .bind (narrated _ _ _ _) fun _ =>
  .bind (.lift _) fun _ =>
  .bind (.lift _) fun _ =>
  .bind (.emit _) fun _ => .pure _

def payProviders : (bound : Nat) → (ahead : Walk) → (tally : Payout.Tally) →
    Narration (Exchange.payProviders carrier market pool weights bound ahead tally)
  | 0, _, tally => .pure tally
  | bound + 1, ahead, tally =>
    .bind (.read (ahead.next ·.store)) fun
      | none => .pure tally
      | some ((provider, position), ahead) =>
        .bind (payProvider narrated market pool weights provider position tally) fun tally =>
          payProviders bound ahead tally

def payOut : Narration (Exchange.payOut carrier market) :=
  .bind (.lift _) fun _ =>
  .bind (requirePool _) fun _ =>
  .bind (.read _) fun _ =>
  .bind (.read _) fun _ =>
  .bind (.lift _) fun _ =>
  .bind (payProviders narrated _ _ _ _ _ _) fun _ =>
  .bind (.lift _) fun _ =>
  .bind (.lift _) fun _ =>
  .bind (putPool _ _) fun _ => .pure _

def settleInFlight : Narration (Exchange.settleInFlight carrier market) :=
  .bind (.quiet fun _ => ⟨rfl, rfl⟩) fun _ =>
  .bind (.attempt (.unit (.payOut narrated market))) fun _ =>
  .bind (.quiet fun _ => ⟨rfl, rfl⟩) fun _ => .pure _

def settleAll : (markets : List Market) → (report : Payout.Report) →
    Narration (Exchange.settleAll carrier markets report)
  | [], report => .pure report
  | market :: rest, _ =>
    .bind (settleInFlight narrated market) fun
      | .ok _ => settleAll rest _
      | .error _ => .either (settleAll rest _) (.fail _)

def distribute (after : Option Market) (most : Option Nat) :
    Narration (Exchange.distribute carrier after most) :=
  .bind (.read _) fun _ =>
  .bind (.read _) fun _ =>
  .either (.fail _) <|
  .bind (settleAll narrated _ _) fun _ => .pure _

def distributeOf (after : Option Market) (most : Value) :
    Narration (Exchange.distributeOf carrier after most) :=
  .bind (.read _) fun _ =>
  .bind (.lift _) fun _ => distribute narrated after _

def distributeOrFail (after : Option Market) (most : Value) :
    Narration (Exchange.distributeOrFail carrier after most) :=
  .bind (distributeOf narrated after most) fun _ => .either (.pure _) (.fail _)

end Payout

end Exchange.Narration

namespace Exchange.WholeNarration

variable {carrier : Carrier ρ} (narrated : carrier.Narrated)

def settle (market : Market) : WholeNarration (Exchange.settle carrier market) :=
  .unit (.payOut narrated market)

def createOf (caller base quote baseAmount quoteAmount : Value) :
    WholeNarration (Exchange.createOf carrier caller base quote baseAmount quoteAmount) :=
  .after (quiet_read _) fun _ =>
  .after (quiet_lift _) fun _ =>
  .after (quiet_lift _) fun _ =>
  .after (quiet_lift _) fun _ =>
  .after (quiet_lift _) fun _ =>
  .either (.fail _) (.unit (.openPool narrated _ _ _ _))

def depositOf (caller market baseAmount quoteAmount : Value) :
    WholeNarration (Exchange.depositOf carrier caller market baseAmount quoteAmount) :=
  .after (quiet_read _) fun _ =>
  .after (quiet_lift _) fun _ =>
  .after (quiet_lift _) fun _ =>
  .after (quiet_lift _) fun _ =>
  .after (quiet_lift _) fun _ => .unit (.addLiquidity narrated _ _ _ _)

def withdrawOf (caller market baseAmount quoteAmount : Value) :
    WholeNarration (Exchange.withdrawOf carrier caller market baseAmount quoteAmount) :=
  .after (quiet_read _) fun _ =>
  .after (quiet_lift _) fun _ =>
  .after (quiet_lift _) fun _ =>
  .after (quiet_lift _) fun _ =>
  .after (quiet_lift _) fun _ => .unit (.removeLiquidity narrated _ _ _ _)

def tradeOf (side : Side) (caller market amount least : Value) :
    WholeNarration (Exchange.tradeOf carrier side caller market amount least) :=
  .after (quiet_read _) fun _ =>
  .after (quiet_lift _) fun _ =>
  .after (quiet_lift _) fun _ =>
  .after (quiet_lift _) fun _ =>
  .after (quiet_lift _) fun _ => .unit (.swap narrated _ _ side _ _)

def perform (caller : Value) (args : Arguments) :
    (name : CallName) → WholeNarration (Exchange.perform carrier caller args name)
  | .createMarketPool =>
    .after (quiet_lift _) fun _ =>
    .after (quiet_lift _) fun _ =>
    .after (quiet_lift _) fun _ =>
    .after (quiet_lift _) fun _ => .map _ (.createOf narrated ..)
  | .depositLiquidity =>
    .after (quiet_lift _) fun _ =>
    .after (quiet_lift _) fun _ =>
    .after (quiet_lift _) fun _ => .map _ (.depositOf narrated ..)
  | .withdrawLiquidity =>
    .after (quiet_lift _) fun _ =>
    .after (quiet_lift _) fun _ =>
    .after (quiet_lift _) fun _ => .map _ (.withdrawOf narrated ..)
  | .buy | .sell =>
    .after (quiet_lift _) fun _ =>
    .after (quiet_lift _) fun _ =>
    .after (quiet_lift _) fun _ => .map _ (.tradeOf narrated ..)

def callOrFail (caller call : Value) :
    WholeNarration (Exchange.callOrFail carrier caller call) := by
  unfold Exchange.callOrFail
  split
  next args =>
    split
    · split
      next name _ => exact .map _ (.collect (perform narrated caller args name).toNarration)
      · exact .fail _
    · exact .fail _
  · exact .fail _

def call (caller call : Value) : WholeNarration (Exchange.call carrier caller call) where
  toNarration :=
    .bind (.attempt (callOrFail narrated caller call).toNarration) fun outcome =>
      .quiet <| quiet_of_same fun x => by
        cases outcome with
        | ok events => rfl
        | error fault => dsimp only; split <;> rfl
  retracts := (callOrFail narrated caller call).retracts.before _ fun _ _ => rfl

end Exchange.WholeNarration

variable {carrier : Carrier ρ} (narrated : carrier.Narrated)

def Request.narration : (r : Request) → WholeNarration (r.run carrier)
  | .create .. => .map _ (.createOf narrated ..)
  | .deposit .. => .map _ (.depositOf narrated ..)
  | .withdraw .. => .map _ (.withdrawOf narrated ..)
  | .trade .. => .map _ (.tradeOf narrated ..)
  | .call .. => .map _ (.call narrated ..)
  | .callOrFail .. => .map _ (.callOrFail narrated ..)
  | .settle market => .map _ (.settle narrated market)

namespace Program

def narration : (p : Program) → Narration (p.run carrier)
  | .done => .pure ()
  | .fail fault => .fail fault
  | .request r => (r.narration narrated).toNarration
  | .distribute after most => .map _ (.distributeOf narrated after most)
  | .distributeOrFail after most => .map _ (.distributeOrFail narrated after most)
  | .seq first second => .bind first.narration fun _ => second.narration
  | .attempt body => .map _ (.attempt body.narration)
  | .unit body => .unit body.narration

def block (p : Program) : Block ρ Unit := (p.narration narrated).block

theorem retracts_block {p : Program} (single : p.IsUnit) : (p.block narrated).Retracts := by
  cases p with
  | request r => exact (r.narration narrated).retracts
  | unit body => exact (WholeNarration.unit (body.narration narrated)).retracts
  | _ => exact single.elim

end Program

namespace Exchange

theorem callOrFail_eq (carrier : Carrier ρ) (caller call : Value) :
    (∃ fault, callOrFail carrier caller call = Action.fail fault) ∨
      ∃ args name,
        callOrFail carrier caller call =
          Prod.snd <$> collect (perform carrier caller args name) := by
  unfold callOrFail
  split
  next args =>
    split
    · split
      · exact .inr ⟨_, _, rfl⟩
      · exact .inl ⟨_, rfl⟩
    · exact .inl ⟨_, rfl⟩
  · exact .inl ⟨_, rfl⟩

include narrated in
theorem callOrFail_delivers {caller call : Value} {x y : Exchange ρ} {events : List Event}
    (done : callOrFail carrier caller call x = (.ok events, y)) : x.Delivers events y := by
  obtain ⟨fault, same⟩ | ⟨args, name, same⟩ := callOrFail_eq carrier caller call
  · rw [same] at done
    cases done
  · rw [same] at done
    obtain ⟨⟨a, collected⟩, ended, rfl⟩ := Action.map_eq_ok done
    have told := (WholeNarration.perform narrated caller args name).toNarration
    have inner := told.block.delivers x.opened
    rw [told.run_block] at inner
    obtain ⟨fault, z, -, left, -⟩ | ⟨b, z, -, left, delivers⟩ := collect_delivers inner
    · cases left.symm.trans ended
    · cases left.symm.trans ended
      exact delivers

/-- Exactly what is committed is published, once and in order. While a unit is open, nothing that a
block does is published. Around an outermost block no unit stays open, and the events that it
publishes are those whose units all ended well; an outermost unit that fails publishes none.
Programs are blocks, and so is a call, which answers with the events that it publishes. -/
theorem publishes_kept (narrated : carrier.Narrated) :
    (∀ (α : Type) (b : Block ρ α) (x : Exchange ρ),
      (x.openUnits ≠ [] → (b.run x).2.log = x.log) ∧
      (x.openUnits = [] →
        (b.run x).2.openUnits = [] ∧ (b.run x).2.log = x.log ++ Told.kept (b.trace x) ∧
        ((b.unit.run x).1.isOk = false → (b.unit.run x).2.log = x.log))) ∧
    (∀ (p : Program) (x : Exchange ρ), (p.block narrated).run = p.run carrier ∧
      (x.openUnits = [] → p.IsUnit → (p.run carrier x).1.isOk = false →
        (p.run carrier x).2.log = x.log)) ∧
    ∀ (caller call : Value) (x y : Exchange ρ) (events : List Event), x.openUnits = [] →
      callOrFail carrier caller call x = (.ok events, y) → y.log = x.log ++ events := by
  have idle {α : Type} (b : Block ρ α) {x : Exchange ρ} (idle : x.openUnits = []) :
      (b.run x).2.log = x.log ++ b.kept x := by
    rw [(b.delivers x).log, log_deliver, if_pos idle]
  refine ⟨fun α b x => ⟨fun busy => ?_, fun outermost => ⟨?_, idle b outermost, fun failed => ?_⟩⟩,
    fun p x => ⟨(p.narration narrated).run_block, fun outermost single failed => ?_⟩,
    fun caller call x y events outermost done => ?_⟩
  · rw [(b.delivers x).log, log_deliver, if_neg busy]
  · rw [(b.delivers x).openUnits, openUnits_deliver, outermost]
    rfl
  · rw [idle b.unit outermost, Block.retracts_unit b x failed, List.append_nil]
  · have same : (p.block narrated).run = p.run carrier := (p.narration narrated).run_block
    rw [← same] at failed ⊢
    rw [idle _ outermost, p.retracts_block narrated single x failed, List.append_nil]
  · rw [(callOrFail_delivers narrated done).log, log_deliver, if_pos outermost]

def callingOnceNarrated {callback : Action (Exchange Bool) Unit} (told : Narration callback) :
    (callingOnce callback).Narrated :=
  fun _ _ _ _ =>
    .bind (.read _) fun _ =>
    .either
      (.bind (.quiet fun _ => ⟨rfl, rfl⟩) fun _ =>
        .bind told fun _ => .quiet (Carrier.quiet_direct _ _ _ _))
      (.quiet (Carrier.quiet_direct _ _ _ _))

/-- While alice's assets are on their way into a pool, she deposits more of them, and then again in
a unit that fails. -/
def interlude : Action (Exchange Bool) Unit := do
  let _ ← deposit .direct "alice" ⟨1, 2⟩ 500 700
  let _ ← Action.attempt <| unit do
    let _ ← deposit .direct "alice" ⟨1, 2⟩ 20 30
    (Action.fail (.marketMissing ⟨1, 2⟩) : Action (Exchange Bool) Unit)

def narratedInterlude : Narration interlude :=
  let deposit (base quote : Nat) : Narration (deposit .direct "alice" ⟨1, 2⟩ base quote) :=
    .unit (.addLiquidity Carrier.plain_direct.narrated ..)
  .bind (deposit 500 700) fun _ =>
  .bind (.attempt (.unit (.bind (deposit 20 30) fun _ => .fail _))) fun _ => .pure _

def deposit1000 : Program :=
  .unit (.request (.deposit (.str "alice") (.tuple [.int 1, .int 2]) (.int 1000) (.int 1000)))

theorem published_with_interlude :
    (deposit1000.run (callingOnce interlude) opening).2.log =
      opening.log ++
        [.liquidity .liquidityAdded "alice" ⟨1, 2⟩ 500 700,
          .liquidity .liquidityAdded "alice" ⟨1, 2⟩ 1000 1000] := by
  let narrated := callingOnceNarrated narratedInterlude
  have idle : opening.openUnits = [] := by decide +kernel
  obtain ⟨blocks, programs, -⟩ := publishes_kept narrated
  obtain ⟨-, told, -⟩ := (blocks Unit (deposit1000.block narrated) opening).2 idle
  rw [← (programs deposit1000 opening).1, told]
  refine congrArg (opening.log ++ ·) ?_
  decide +kernel

end Exchange

end LiquidityPools
