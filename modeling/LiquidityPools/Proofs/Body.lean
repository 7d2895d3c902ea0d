import LiquidityPools.Exchange.Liquidity
import LiquidityPools.Proofs.Books
import LiquidityPools.Proofs.Quote
import LiquidityPools.Proofs.Unit

/-!
What the body of an operation does if it ends well, over any carrier: it checks what it finds, has
the carrier make the movements of one deal, and then writes what it computed from its reading,
whatever the carrier did to the store meanwhile.
-/

namespace LiquidityPools

variable {ρ α β : Type}

namespace Action

variable {σ : Type} {s t : σ}

theorem bind_read (f : σ → α) (g : α → Action σ β) (s : σ) : (read f >>= g) s = g (f s) s := rfl

theorem bind_lift (a : α) (g : α → Action σ β) (s : σ) :
    ((liftM (.ok a : Except Fault α) : Action σ α) >>= g) s = g a s := rfl

theorem map_apply (f : α → β) (m : Action σ α) (s : σ) :
    (f <$> m) s = ((m s).1.map f, (m s).2) := by
  show (m >>= fun a => pure (f a)) s = _
  rw [bind_apply]
  cases m s with
  | mk outcome t => cases outcome <;> rfl

theorem bind_congr {m : Action σ α} {f g : α → Action σ β}
    (same : ∀ a t, m s = (.ok a, t) → f a t = g a t) : (m >>= f) s = (m >>= g) s := by
  rw [bind_apply, bind_apply]
  cases ran : m s with
  | mk outcome t =>
    cases outcome with
    | error fault => rfl
    | ok a => exact same a t ran

theorem bind_lift_eq_ok {outcome : Except Fault α} {f : α → Action σ β} {b : β}
    (done : ((liftM outcome : Action σ α) >>= f) s = (.ok b, t)) :
    ∃ a, outcome = .ok a ∧ f a s = (.ok b, t) := by
  obtain ⟨a, u, lifted, next⟩ := bind_eq_ok done
  cases lifted
  exact ⟨a, rfl, next⟩

end Action

namespace Exchange

section Steps

variable {x y : Exchange ρ} {market : Market} {asset : Asset} {account : Account} {amount : Nat}

theorem unit_congr {body body' : Action (Exchange ρ) α} (same : body x.opened = body' x.opened) :
    unit body x = unit body' x := by
  have collected : collect body x = collect body' x := by rw [collect_eq, collect_eq, same]
  rw [unit, unit, Action.map_apply, Action.map_apply, collected]

theorem requirePool_bind_eq_ok {b : β} {f : Pool → Action (Exchange ρ) β}
    (done : (requirePool market >>= f) x = (.ok b, y)) :
    ∃ pool, x.store.pool? market = some pool ∧ f pool x = (.ok b, y) := by
  obtain ⟨pool, u, found, next⟩ := Action.bind_eq_ok done
  unfold requirePool at found
  split at found
  next held h => cases found; exact ⟨pool, h, next⟩
  next => cases found

theorem requireBalance_bind_eq_ok {b : β} {f : Unit → Action (Exchange ρ) β}
    (done : (requireBalance asset account amount >>= f) x = (.ok b, y)) :
    amount ≤ x.balance asset account ∧ f () x = (.ok b, y) := by
  obtain ⟨_, u, found, next⟩ := Action.bind_eq_ok done
  unfold requireBalance at found
  simp only at found
  split at found
  · cases found
  · cases found
    exact ⟨by omega, next⟩

theorem insertPool_bind_eq_ok {b : β} {pool : Pool} {f : Unit → Action (Exchange ρ) β}
    (done : (insertPool market pool >>= f) x = (.ok b, y)) :
    x.store.pool? market = none ∧
      f () { x with store := x.store.writePool market pool none } = (.ok b, y) := by
  obtain ⟨_, u, put, next⟩ := Action.bind_eq_ok done
  simp only [insertPool, Lens.change, storePlace, Store.insertPool] at put
  split at put
  next s written =>
    split at written
    next => cases written
    next free =>
      cases written
      cases put
      exact ⟨free, next⟩
  next => cases put

theorem insertPool_eq (free : x.store.pool? market = none) (pool : Pool) :
    insertPool market pool x =
      (.ok (), { x with store := x.store.writePool market pool none }) := by
  simp only [insertPool, Lens.change, storePlace, Store.insertPool, free]

theorem putPool_eq {before : Pool} (held : x.store.pool? market = some before) (pool : Pool) :
    putPool market pool x =
      (.ok (), { x with store := x.store.writePool market pool (some before) }) := by
  simp only [putPool, Lens.change, storePlace, Store.putPool, held]

theorem putPool_bind_eq_ok {b : β} {pool : Pool} {f : Unit → Action (Exchange ρ) β}
    (done : (putPool market pool >>= f) x = (.ok b, y)) :
    ∃ left, x.store.pool? market = some left ∧
      f () { x with store := x.store.writePool market pool (some left) } = (.ok b, y) := by
  obtain ⟨_, u, put, next⟩ := Action.bind_eq_ok done
  simp only [putPool, Lens.change, storePlace, Store.putPool] at put
  split at put
  next s written =>
    split at written
    next left held =>
      cases written
      cases put
      exact ⟨left, held, next⟩
    next => cases written
  next => cases put

theorem putPosition_eq (market : Market) (provider : Account) (position : Position)
    (x : Exchange ρ) :
    putPosition market provider position x =
      (.ok (), { x with store := x.store.keepPosition market provider position }) := by
  simp only [putPosition, Action.modify_apply, Store.keepPosition]
  split <;> rfl

theorem emit_eq (event : Event) (x : Exchange ρ) :
    emit event x = (.ok (), { x with openUnits := x.openUnits.modifyHead (· ++ [event]) }) := by
  cases x with
  | mk config store ledger log openUnits inFlight host => cases openUnits <;> rfl

end Steps

section Bodies

variable {carrier : Carrier ρ} {x y z : Exchange ρ}

def sendAll (carrier : Carrier ρ) : List Movement → Action (Exchange ρ) Unit
  | [] => pure ()
  | m :: rest => do
    carrier.transfer m.asset m.source m.dest m.amount
    sendAll carrier rest

theorem sendAll_cons {m : Movement} {rest : List Movement}
    (sent : carrier.transfer m.asset m.source m.dest m.amount x = (.ok (), y))
    (onward : sendAll carrier rest y = (.ok (), z)) :
    sendAll carrier (m :: rest) x = (.ok (), z) := by
  rw [sendAll, Action.bind_ok sent]
  exact onward

def recorded (x : Exchange ρ) (s : Store) (events : List Event) : Exchange ρ :=
  { x with store := s, openUnits := x.openUnits.modifyHead (· ++ events) }

/-- A body read the pool `found` on `x`, had the movements of a deal made, and at `z` wrote `final`
over the pool `left` that it met there, beside what `put` writes. -/
structure Replaces (carrier : Carrier ρ) (x : Exchange ρ) (deal : Deal) (found left final : Pool)
    (put : Store → Store) (z y : Exchange ρ) : Prop where
  reads : x.store.pool? deal.market = some found
  sent : sendAll carrier (deal.movements x.config) x = (.ok (), z)
  meets : z.store.pool? deal.market = some left
  writes : y = z.recorded (put (z.store.writePool deal.market final (some left))) deal.events

variable {caller : Account} {market : Market} {base quote : Nat}

theorem openPool_eq_ok {pool : Pool}
    (done : openPool carrier caller market base quote x = (.ok pool, y)) :
    let deal : Deal := .opened caller market base quote
    x.store.pool? market = none ∧ ∃ z, sendAll carrier (deal.movements x.config) x = (.ok (), z) ∧
      z.store.pool? market = none ∧
      y = z.recorded ((z.store.writePool market { baseReserve := base, quoteReserve := quote }
        none).putPosition market caller ⟨base, quote⟩) deal.events := by
  rw [openPool, Action.bind_read] at done
  dsimp only at done
  split at done
  next taken => cases done
  next free =>
    have fresh : x.store.pool? market = none := by simpa [Store.hasPool] using free
    obtain ⟨-, done⟩ := requireBalance_bind_eq_ok done
    obtain ⟨-, done⟩ := requireBalance_bind_eq_ok done
    rw [Action.bind_read] at done
    obtain ⟨⟨⟩, u, movedBase, done⟩ := Action.bind_eq_ok done
    obtain ⟨⟨⟩, z, movedQuote, done⟩ := Action.bind_eq_ok done
    obtain ⟨free', done⟩ := insertPool_bind_eq_ok done
    rw [Action.bind_ok (Action.modify_apply ..), Action.bind_ok (emit_eq ..)] at done
    cases done
    exact ⟨fresh, z, sendAll_cons movedBase (sendAll_cons movedQuote rfl), free', rfl⟩

theorem addLiquidity_eq_ok {position : Position}
    (done : addLiquidity carrier caller market base quote x = (.ok position, y)) :
    let held := x.store.position market caller
    position = ⟨held.base + base, held.quote + quote⟩ ∧
      (position.base ≤ x.config.cap ∧ position.quote ≤ x.config.cap) ∧ ∃ found left z,
      (found.baseReserve + base ≤ x.config.cap ∧ found.quoteReserve + quote ≤ x.config.cap) ∧
      Replaces carrier x (.added caller market base quote) found left
        { found with
          baseReserve := found.baseReserve + base, quoteReserve := found.quoteReserve + quote }
        (Store.keepPosition market caller position) z y := by
  obtain ⟨pool, held, done⟩ := requirePool_bind_eq_ok done
  obtain ⟨-, done⟩ := requireBalance_bind_eq_ok done
  obtain ⟨-, done⟩ := requireBalance_bind_eq_ok done
  rw [Action.bind_read] at done
  obtain ⟨baseReserve, baseSum, done⟩ := Action.bind_lift_eq_ok done
  obtain ⟨quoteReserve, quoteSum, done⟩ := Action.bind_lift_eq_ok done
  rw [Action.bind_read] at done
  obtain ⟨baseHeld, baseKept, done⟩ := Action.bind_lift_eq_ok done
  obtain ⟨quoteHeld, quoteKept, done⟩ := Action.bind_lift_eq_ok done
  rw [Action.bind_read] at done
  obtain ⟨⟨⟩, u, movedBase, done⟩ := Action.bind_eq_ok done
  obtain ⟨⟨⟩, z, movedQuote, done⟩ := Action.bind_eq_ok done
  obtain ⟨left, met, done⟩ := putPool_bind_eq_ok done
  rw [Action.bind_ok (putPosition_eq ..), Action.bind_ok (emit_eq ..)] at done
  cases done
  obtain ⟨rfl, baseFits⟩ := Amount.add_eq_ok_iff.1 baseSum
  obtain ⟨rfl, quoteFits⟩ := Amount.add_eq_ok_iff.1 quoteSum
  obtain ⟨rfl, baseHeldFits⟩ := Amount.add_eq_ok_iff.1 baseKept
  obtain ⟨rfl, quoteHeldFits⟩ := Amount.add_eq_ok_iff.1 quoteKept
  refine ⟨rfl, ⟨Int.ofNat_le.1 baseHeldFits, Int.ofNat_le.1 quoteHeldFits⟩, pool, left, z,
    ⟨Int.ofNat_le.1 baseFits, Int.ofNat_le.1 quoteFits⟩, held, ?_, met, rfl⟩
  exact sendAll_cons movedBase (sendAll_cons movedQuote rfl)

theorem removeLiquidity_eq_ok {position : Position}
    (done : removeLiquidity carrier caller market base quote x = (.ok position, y)) :
    let held := x.store.position market caller
    position = ⟨held.base - base, held.quote - quote⟩ ∧ (base ≤ held.base ∧ quote ≤ held.quote) ∧
      ∃ found left z, (base ≤ found.baseReserve ∧ quote ≤ found.quoteReserve) ∧
      Replaces carrier x (.withdrawn caller market base quote) found left
        { found with
          baseReserve := found.baseReserve - base, quoteReserve := found.quoteReserve - quote }
        (Store.keepPosition market caller position) z y := by
  obtain ⟨pool, held, done⟩ := requirePool_bind_eq_ok done
  rw [Action.bind_read] at done
  dsimp only at done
  split at done
  next short => cases done
  next covered =>
    rw [Action.bind_read] at done
    obtain ⟨baseHeld, baseKept, done⟩ := Action.bind_lift_eq_ok done
    obtain ⟨quoteHeld, quoteKept, done⟩ := Action.bind_lift_eq_ok done
    obtain ⟨baseReserve, baseLeft, done⟩ := Action.bind_lift_eq_ok done
    obtain ⟨quoteReserve, quoteLeft, done⟩ := Action.bind_lift_eq_ok done
    rw [Action.bind_read] at done
    obtain ⟨⟨⟩, u, movedBase, done⟩ := Action.bind_eq_ok done
    obtain ⟨⟨⟩, z, movedQuote, done⟩ := Action.bind_eq_ok done
    obtain ⟨left, met, done⟩ := putPool_bind_eq_ok done
    rw [Action.bind_ok (putPosition_eq ..), Action.bind_ok (emit_eq ..)] at done
    cases done
    obtain ⟨baseCovered, rfl, -⟩ := Amount.sub_eq_ok_iff.1 baseKept
    obtain ⟨quoteCovered, rfl, -⟩ := Amount.sub_eq_ok_iff.1 quoteKept
    obtain ⟨baseEnough, rfl, -⟩ := Amount.sub_eq_ok_iff.1 baseLeft
    obtain ⟨quoteEnough, rfl, -⟩ := Amount.sub_eq_ok_iff.1 quoteLeft
    refine ⟨rfl, ⟨baseCovered, quoteCovered⟩, pool, left, z, ⟨baseEnough, quoteEnough⟩, held, ?_,
      met, rfl⟩
    exact sendAll_cons movedBase (sendAll_cons movedQuote rfl)

theorem swap_eq_ok {side : Side} {amount least : Nat} {quote : Quote}
    (done : swap carrier side caller market amount least x = (.ok quote, y)) :
    ∃ found left z, Quote.price x.config.cap found quote.side amount x.config.feeRate = .ok quote ∧
      quote.side = side ∧ least ≤ quote.receiveAmount ∧
      spentFees quote.side found + quote.fee ≤ x.config.cap ∧
      Replaces carrier x (.traded caller market amount quote) found left
        (afterTrade found quote (spentFees quote.side found + quote.fee)) id z y := by
  rw [swap] at done
  obtain ⟨pool, held, done⟩ := requirePool_bind_eq_ok done
  obtain ⟨-, done⟩ := requireBalance_bind_eq_ok done
  rw [Action.bind_read] at done
  obtain ⟨priced, price, done⟩ := Action.bind_lift_eq_ok done
  dsimp only at done
  split at done
  next slipped => cases done
  next enough =>
    obtain ⟨collected, sum, done⟩ := Action.bind_lift_eq_ok done
    obtain ⟨⟨⟩, u, movedNet, done⟩ := Action.bind_eq_ok done
    obtain ⟨⟨⟩, v, movedFee, done⟩ := Action.bind_eq_ok done
    obtain ⟨⟨⟩, z, movedOut, done⟩ := Action.bind_eq_ok done
    obtain ⟨left, met, done⟩ := putPool_bind_eq_ok done
    rw [Action.bind_ok (emit_eq ..)] at done
    cases done
    obtain ⟨rfl, feesFit⟩ := Amount.add_eq_ok_iff.1 sum
    obtain rfl := (Quote.balanced_of_price price).onSide
    refine ⟨pool, left, z, price, rfl, Nat.le_of_not_lt enough, Int.ofNat_le.1 feesFit, held, ?_,
      met, rfl⟩
    exact sendAll_cons movedNet (sendAll_cons movedFee (sendAll_cons movedOut rfl))

end Bodies

end Exchange

end LiquidityPools
