import LiquidityPools.Proofs.Carrier

/-!
Payout runs inside payout runs. A carrier may ask for payout runs before it moves an asset, and the
transfers of those runs may ask for more. What happens in a run is told by its scenes: each
settlement that is started, with the settlements that it is started inside of, and each run that is
asked for.
-/

namespace LiquidityPools

open Payout (Report)

variable {ρ α β : Type}

/-- What a carrier does before it moves an asset: it asks for payout runs, one after the other, and
goes on by what came of them, or it refuses. -/
inductive Recall (ρ : Type) where
  | done
  | refuse (fault : Fault)
  | remember (host : ρ) (next : Recall ρ)
  | distribute (after : Option Market) (most : Value)
      (next : Except Fault Report → Exchange ρ → Recall ρ)

def Recall.run (carrier : Carrier ρ) : Recall ρ → Action (Exchange ρ) Unit
  | .done => pure ()
  | .refuse fault => Action.fail fault
  | .remember host next => do
    Action.modify fun x => { x with host }
    next.run carrier
  | .distribute after most next => do
    let outcome ← Action.attempt (Exchange.distributeOf carrier after most)
    let x ← Action.read id
    (next outcome x).run carrier

abbrev Carrier.Plan (ρ : Type) := Asset → Account → Account → Nat → Exchange ρ → Recall ρ

/-- Asks for payout runs before it moves an asset on the exchange's own ledger; the runs that it
asks for are carried out in the same way, to this depth. -/
def Carrier.recalling (plan : Carrier.Plan ρ) : (depth : Nat) → Carrier ρ
  | 0 => .direct
  | depth + 1 =>
    { transfer := fun asset source dest amount => do
        let asked ← Action.read (plan asset source dest amount)
        asked.run (recalling plan depth)
        Carrier.direct.transfer asset source dest amount }

section Journaled

open Exchange

theorem Recall.orderly {carrier : Carrier ρ} (journaled : carrier.Journaled) (r : Recall ρ) :
    Orderly (r.run carrier) := by
  induction r with
  | done => exact orderly_pure ()
  | refuse fault => exact orderly_fail fault
  | remember host next ih =>
    have kept : Orderly (Action.modify fun x : Exchange ρ => { x with host }) :=
      fun x sound => ⟨[], (Follows.refl sound).withHost host⟩
    exact kept.bind fun _ => ih
  | distribute after most next ih =>
    refine (orderly_distributeOf journaled after most).attempt.bind fun outcome => ?_
    exact (orderly_of_same fun _ => rfl).bind fun x => ih outcome x

theorem Carrier.journaled_recalling (plan : Carrier.Plan ρ) (depth : Nat) :
    (Carrier.recalling plan depth).Journaled := by
  induction depth with
  | zero => exact Carrier.plain_direct.journaled
  | succ depth ih =>
    intro asset source dest amount
    refine (journaled_read _).bind fun asked => (asked.orderly ih).journaled.bind fun _ => ?_
    exact Carrier.plain_direct.journaled asset source dest amount

end Journaled

structure Payout.Settled where
  market : Market
  payouts : List Payout
  dust : Nat × Nat

/-- What happens in a payout run. -/
inductive Scene (ρ : Type) where
  | run (stack batch : List Market) (before : Exchange ρ) (outcome : Except Fault Report)
      (after : Exchange ρ)
  /-- A settlement was started inside those of other markets. It lasts if it and all of those that
  were watched ended well. -/
  | settlement (stack : List Market) (market : Market)
      (outcome : Except Fault (List Payout × Nat × Nat)) (lasts : Bool)

namespace Scene

def stack : Scene ρ → List Market
  | .run stack _ _ _ _ | .settlement stack _ _ _ => stack

/-- The scene inside a settlement that ended well, or did not. -/
def within (well : Bool) : Scene ρ → Scene ρ
  | .settlement stack market outcome lasts => .settlement stack market outcome (lasts && well)
  | scene => scene

def settled? : Scene ρ → Option Payout.Settled
  | .settlement _ market (.ok (payouts, dust)) true => some ⟨market, payouts, dust⟩
  | _ => none

/-- The settlements that last. -/
def kept (scenes : List (Scene ρ)) : List Payout.Settled := scenes.filterMap settled?

end Scene

structure Chronicle (m : Action (Exchange ρ) α) where
  scenes : (stack : List Market) → (x : Exchange ρ) → List (Scene ρ)

abbrev Carrier.Told (carrier : Carrier ρ) : Type :=
  ∀ asset source dest amount, Chronicle (carrier.transfer asset source dest amount)

namespace Chronicle

variable {m m' : Action (Exchange ρ) α} {f : α → Action (Exchange ρ) β}

def silent (m : Action (Exchange ρ) α) : Chronicle m := ⟨fun _ _ => []⟩

def bind (first : Chronicle m) (next : ∀ a, Chronicle (f a)) : Chronicle (m >>= f) where
  scenes stack x :=
    match m x with
    | (.ok a, y) => first.scenes stack x ++ (next a).scenes stack y
    | (.error _, _) => first.scenes stack x

def attempt (body : Chronicle m) : Chronicle (Action.attempt m) := ⟨body.scenes⟩

def either {c : Prop} [Decidable c] (yes : Chronicle m) (no : Chronicle m') :
    Chronicle (if c then m else m') :=
  ⟨fun stack x => if c then yes.scenes stack x else no.scenes stack x⟩

def settling {body : Action (Exchange ρ) (List Payout × Nat × Nat)} (market : Market)
    (told : Chronicle body) : Chronicle (Exchange.unit body) where
  scenes stack x :=
    let outcome := (Exchange.unit body x).1
    (told.scenes (market :: stack) x.opened).map (Scene.within outcome.isOk) ++
      [.settlement stack market outcome outcome.isOk]

def running {body : Action (Exchange ρ) Report} (batch : Exchange ρ → List Market)
    (told : Chronicle body) : Chronicle body where
  scenes stack x := .run stack (batch x) x (body x).1 (body x).2 :: told.scenes stack x

section Payouts

variable {carrier : Carrier ρ} (told : carrier.Told) (market : Market) (pool : Pool)
  (weights : Nat × Nat)

def payProvider (provider : Account) (position : Position) (tally : Payout.Tally) :
    Chronicle (Exchange.payProvider carrier market pool weights provider position tally) :=
  .bind (.silent _) fun _ =>
  .bind (.silent _) fun _ =>
  .bind (.silent _) fun _ =>
  .either (.silent _) <|
  .bind (told _ _ _ _) fun _ =>
  .bind (told _ _ _ _) fun _ => .silent _

def payProviders : (bound : Nat) → (walk : Walk) → (tally : Payout.Tally) →
    Chronicle (Exchange.payProviders carrier market pool weights bound walk tally)
  | 0, _, _ => .silent _
  | bound + 1, walk, tally =>
    .bind (.silent (Action.read (walk.next ·.store))) fun
      | none => .silent _
      | some ((provider, position), walk) =>
        .bind (payProvider told market pool weights provider position tally) fun tally =>
          payProviders bound walk tally

def payOut : Chronicle (Exchange.payOut carrier market) :=
  .bind (.silent _) fun _ =>
  .bind (.silent _) fun _ =>
  .bind (.silent _) fun _ =>
  .bind (.silent _) fun _ =>
  .bind (.silent _) fun _ =>
  .bind (payProviders told _ _ _ _ _ _) fun _ => .silent _

def settle : Chronicle (Exchange.settle carrier market) := settling market (payOut told market)

def settleInFlight : Chronicle (Exchange.settleInFlight carrier market) :=
  .bind (.silent _) fun _ =>
  .bind (.attempt (settle told market)) fun _ => .silent _

def settleAll : (markets : List Market) → (report : Report) →
    Chronicle (Exchange.settleAll carrier markets report)
  | [], _ => .silent _
  | market :: rest, _ =>
    .bind (settleInFlight told market) fun
      | .ok _ => settleAll rest _
      | .error _ => .either (settleAll rest _) (.silent _)

def distribute (after : Option Market) (most : Option Nat) :
    Chronicle (Exchange.distribute carrier after most) :=
  running (fun x => Exchange.batchOf (x.pendingMarkets after) most) <|
  .bind (.silent _) fun _ =>
  .bind (.silent _) fun _ =>
  .either (.silent _) <|
  .bind (settleAll told _ _) fun _ => .silent _

def distributeOf (after : Option Market) (most : Value) :
    Chronicle (Exchange.distributeOf carrier after most) :=
  .bind (.silent _) fun _ =>
  .bind (.silent _) fun _ => distribute told after _

def ofRecall : (r : Recall ρ) → Chronicle (r.run carrier)
  | .done => .silent _
  | .refuse _ => .silent _
  | .remember _ next => .bind (.silent _) fun _ => ofRecall next
  | .distribute after most next =>
    .bind (.attempt (distributeOf told after most)) fun outcome =>
    .bind (.silent _) fun x => ofRecall (next outcome x)

end Payouts

def recalling (plan : Carrier.Plan ρ) : (depth : Nat) → (Carrier.recalling plan depth).Told
  | 0 => fun _ _ _ _ => .silent _
  | depth + 1 => fun _ _ _ _ =>
    .bind (.silent _) fun r =>
    .bind (ofRecall (recalling plan depth) r) fun _ => .silent _

end Chronicle

end LiquidityPools
