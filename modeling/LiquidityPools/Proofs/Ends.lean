import LiquidityPools.Proofs.Dealing

/-!
How a step can end on a given state: with a fault of some description, or well and in some way.
There is a rule for each kind of step that operations are made of. Over the exchange's own ledger,
and without a cap on balances, a transfer that its source can pay for is never what a step ends
with.
-/

namespace LiquidityPools

variable {ρ α β : Type}

theorem Ledger.move_of_enough {l : Ledger} {asset : Asset} {source : Account} {amount : Nat}
    (sound : l.Sound) (uncapped : l.balances.cap = none) (enough : amount ≤ l.balance asset source)
    (dest : Account) :
    ∃ k, l.move asset source dest amount = .ok k ∧ k.balances.cap = none := by
  by_cases idle : amount = 0 ∨ source = dest
  · exact ⟨l, move_of_idle idle, uncapped⟩
  · rcases move_of_moving sound asset (not_or.1 idle) with ⟨-, done⟩ | ⟨refused, -⟩
    · exact ⟨_, done, uncapped⟩
    · exact absurd ⟨enough, Balances.exceeded?_of_uncapped uncapped _⟩ refused

namespace Exchange

/-- Run on this state, the step fails like this, or ends well in this way. -/
def Ends (m : Action (Exchange ρ) α) (x : Exchange ρ) (fails : Fault → Prop)
    (ends : α → Exchange ρ → Prop) : Prop :=
  (∃ fault y, m x = (.error fault, y) ∧ fails fault) ∨ ∃ a y, m x = (.ok a, y) ∧ ends a y

variable {m : Action (Exchange ρ) α} {f : α → Action (Exchange ρ) β} {x : Exchange ρ}
  {fails worse : Fault → Prop} {first : α → Exchange ρ → Prop} {last : β → Exchange ρ → Prop}

namespace Ends

theorem bind (earlier : Ends m x fails first) (later : ∀ a y, first a y → Ends (f a) y fails last) :
    Ends (m >>= f) x fails last := by
  rcases earlier with ⟨fault, y, failed, told⟩ | ⟨a, y, done, reached⟩
  · exact .inl ⟨fault, y, Action.bind_error failed f, told⟩
  · rw [Ends, Action.bind_ok done]
    exact later a y reached

theorem pure {a : α} (reached : first a x) : Ends (Pure.pure a) x fails first :=
  .inr ⟨a, x, rfl, reached⟩

theorem fail {fault : Fault} (told : fails fault) : Ends (Action.fail fault) x fails first :=
  .inl ⟨fault, x, rfl, told⟩

theorem weaken {weaker : α → Exchange ρ → Prop} (ends : Ends m x fails first)
    (fault : ∀ fault, fails fault → worse fault) (well : ∀ a y, first a y → weaker a y) :
    Ends m x worse weaker := by
  rcases ends with ⟨f, y, failed, told⟩ | ⟨a, y, done, reached⟩
  · exact .inl ⟨f, y, failed, fault f told⟩
  · exact .inr ⟨a, y, done, well a y reached⟩

theorem map {g : α → β} (ends : Ends m x fails fun a y => last (g a) y) :
    Ends (g <$> m) x fails last :=
  ends.bind fun _ _ => .pure

theorem read {g : Exchange ρ → α} (later : Ends (f (g x)) x fails last) :
    Ends (Action.read g >>= f) x fails last := later

theorem lift {outcome : Except Fault α} (told : Except.FailsOnly outcome fails)
    (later : ∀ a, outcome = .ok a → Ends (f a) x fails last) :
    Ends ((liftM outcome : Action (Exchange ρ) α) >>= f) x fails last := by
  cases h : outcome with
  | error fault => exact .inl ⟨fault, x, rfl, told fault h⟩
  | ok a => exact later a h

theorem told {fault : Fault} {y : Exchange ρ} (ends : Ends m x fails first)
    (failed : m x = (.error fault, y)) : fails fault := by
  rcases ends with ⟨other, z, failed', told⟩ | ⟨a, z, done, -⟩
  · rw [failed] at failed'
    cases failed'
    exact told
  · rw [failed] at done
    cases done

theorem reached {a : α} {y : Exchange ρ} (ends : Ends m x fails first) (done : m x = (.ok a, y)) :
    first a y := by
  rcases ends with ⟨fault, z, failed, -⟩ | ⟨other, z, done', reached⟩
  · rw [done] at failed
    cases failed
  · rw [done] at done'
    cases done'
    exact reached

theorem outcome {spec : Except Fault α}
    (ends : Ends m x (spec = .error ·) fun a _ => spec = .ok a) :
    (m x).1 = spec := by
  rcases ends with ⟨fault, y, failed, told⟩ | ⟨a, y, done, reached⟩
  · rw [failed, told]
  · rw [done, reached]

theorem step {a : α} {y : Exchange ρ} (done : m x = (.ok a, y)) (later : Ends (f a) y fails last) :
    Ends (m >>= f) x fails last := by
  rw [Ends, Action.bind_ok done]
  exact later

theorem computed {outcome : Except Fault α} {a : α} (done : outcome = .ok a)
    (later : Ends (f a) x fails last) :
    Ends ((liftM outcome : Action (Exchange ρ) α) >>= f) x fails last :=
  .step (by rw [done]; rfl) later

theorem add {cap : Int} {a b : Nat} {g : Nat → Action (Exchange ρ) β}
    (told : cap < a + b → ∀ fault : Fault, fault.IsArithmetic → fails fault)
    (later : (a : Int) + b ≤ cap → Ends (g (a + b)) x fails last) :
    Ends ((liftM (Amount.add cap a b) : Action (Exchange ρ) Nat) >>= g) x fails last := by
  by_cases room : (a : Int) + b ≤ cap
  · exact .computed (Amount.add_eq_ok_iff.2 ⟨rfl, by simpa using room⟩) (later room)
  · refine .lift (fun fault failed =>
      told (Int.not_le.1 room) fault (Amount.failsOnly_bounded fault failed))
      fun sum done => ?_
    obtain ⟨rfl, fits⟩ := Amount.add_eq_ok_iff.1 done
    exact absurd (by simpa using fits) room

section Requirements

variable {market : Market} {asset : Asset} {account source dest : Account} {amount : Nat}

theorem requirePool {g : Pool → Action (Exchange ρ) β}
    (told : x.store.pool? market = none → fails (.marketMissing market))
    (later : ∀ pool, x.store.pool? market = some pool → Ends (g pool) x fails last) :
    Ends (requirePool market >>= g) x fails last := by
  cases held : x.store.pool? market with
  | none =>
    refine .inl ⟨.marketMissing market, x, ?_, told held⟩
    simp only [Action.bind_apply, Exchange.requirePool, held]
  | some pool =>
    have found : Exchange.requirePool market x = (.ok pool, x) := by
      simp only [Exchange.requirePool, held]
    exact .step found (later pool held)

theorem requireBalance {g : Unit → Action (Exchange ρ) β}
    (told : x.balance asset account < amount →
      fails (.shortBalance account (x.balance asset account) asset amount))
    (later : amount ≤ x.balance asset account → Ends (g ()) x fails last) :
    Ends (requireBalance asset account amount >>= g) x fails last := by
  by_cases short : x.balance asset account < amount
  · refine .inl ⟨_, x, ?_, told short⟩
    simp only [Action.bind_apply, Exchange.requireBalance, short, if_true]
  · have enough : Exchange.requireBalance asset account amount x = (.ok (), x) := by
      simp only [Exchange.requireBalance, short, if_false]
    exact .step enough (later (Nat.le_of_not_lt short))

theorem insertPool {g : Unit → Action (Exchange ρ) β} {pool : Pool}
    (free : x.store.pool? market = none)
    (later : Ends (g ()) { x with store := x.store.writePool market pool none } fails last) :
    Ends (insertPool market pool >>= g) x fails last :=
  .step (insertPool_eq free pool) later

theorem putPool {g : Unit → Action (Exchange ρ) β} {before pool : Pool}
    (held : x.store.pool? market = some before)
    (later : Ends (g ()) { x with store := x.store.writePool market pool (some before) }
      fails last) :
    Ends (putPool market pool >>= g) x fails last :=
  .step (putPool_eq held pool) later

theorem transfer {carrier : Carrier ρ} {g : Unit → Action (Exchange ρ) β} (plain : carrier.Plain)
    (sound : x.Sound) (told : ∀ cause, fails (.transfer cause))
    (later : ∀ l host, x.ledger.balances.move ⟨asset, source, dest, amount⟩ = .ok l.balances →
      (x.moved l host).Sound → Ends (g ()) (x.moved l host) fails last) :
    Ends (carrier.transfer asset source dest amount >>= g) x fails last := by
  obtain ⟨host, ⟨cause, refused⟩ | ⟨l, moved, carried⟩⟩ :=
    plain.outcome sound asset source dest amount
  · exact .inl ⟨_, _, Action.bind_error refused g, told cause⟩
  · exact .step carried (later l host (Balances.move_of_ledger moved)
      ⟨sound.store, (Ledger.move_effect sound.ledger moved).1⟩)

end Requirements

end Ends

structure Roomy (x : Exchange ρ) : Prop where
  sound : x.Sound
  uncapped : x.ledger.balances.cap = none

theorem Ends.direct {asset : Asset} {source dest : Account} {amount : Nat}
    {g : Unit → Action (Exchange ρ) β} (roomy : x.Roomy) (enough : amount ≤ x.balance asset source)
    (later : ∀ y : Exchange ρ, y.Roomy → y.store = x.store → y.config = x.config →
      (∀ other account, (y.balance other account : Int) =
        x.balance other account + Movement.change ⟨asset, source, dest, amount⟩ other account) →
      Ends (g ()) y fails last) :
    Ends (Carrier.direct.transfer asset source dest amount >>= g) x fails last := by
  obtain ⟨l, moved, uncapped⟩ := Ledger.move_of_enough roomy.sound.ledger roomy.uncapped enough dest
  obtain ⟨sound, -, -, changes⟩ := Ledger.move_effect roomy.sound.ledger moved
  have carried : Carrier.direct.transfer asset source dest amount x =
      (.ok (), { x with ledger := l }) := by
    simp only [Carrier.direct, Lens.change, ledgerPlace, moved]
  exact .step carried (later _ ⟨⟨roomy.sound.store, sound⟩, uncapped⟩ rfl rfl changes)

theorem Ends.collect {good : α → Prop} (journaled : Journaled m) (sound : x.Sound)
    (inner : Ends m x.opened fails fun a _ => good a) :
    Ends (collect m) x fails fun a _ => good a.1 := by
  obtain ⟨events, -, ⟨fault, failed, stopped⟩ | ⟨a, done, closed⟩⟩ := journaled.collect sound
  · exact .inl ⟨_, _, stopped, inner.told (Prod.ext failed rfl)⟩
  · exact .inr ⟨_, _, closed, inner.reached (Prod.ext done rfl)⟩

theorem Ends.unit {good : α → Prop} (journaled : Journaled m) (sound : x.Sound)
    (inner : Ends m x.opened fails fun a _ => good a) : Ends (unit m) x fails fun a _ => good a :=
  (Ends.collect journaled sound inner).map

end Exchange

end LiquidityPools
