import LiquidityPools.Exchange
import LiquidityPools.Proofs.Ending

/-!
Units are all or nothing. A step is journaled if, run inside a unit, it leaves an exchange that the
unit's marks still lead back from: every step that goes through the journals is, and so is every
sequence of such steps and every unit around one. Hence a unit that fails restores the exchange it
was opened on, and a unit that ends well keeps what its body wrote.
-/

namespace LiquidityPools

namespace Action

variable {σ α β : Type} {s t : σ}

theorem bind_eq_ok {m : Action σ α} {f : α → Action σ β} {b : β} (done : (m >>= f) s = (.ok b, t)) :
    ∃ a u, m s = (.ok a, u) ∧ f a u = (.ok b, t) := by
  rw [bind_apply] at done
  split at done
  next a u h => exact ⟨a, u, h, done⟩
  next => cases done

theorem map_eq_ok {m : Action σ α} {f : α → β} {b : β} (done : (f <$> m) s = (.ok b, t)) :
    ∃ a, m s = (.ok a, t) ∧ f a = b := by
  obtain ⟨a, u, h, last⟩ := bind_eq_ok (f := fun a => pure (f a)) done
  cases last
  exact ⟨a, h, rfl⟩

end Action

namespace Exchange

variable {ρ α β : Type}

structure Sound (x : Exchange ρ) : Prop where
  store : x.store.Coherent
  ledger : x.ledger.Sound

def fresh (config : Config) (balances : Balances) (host : ρ) : Exchange ρ :=
  { config, ledger := { balances }, host }

theorem sound_fresh {balances : Balances} (sound : balances.Sound) (config : Config) (host : ρ) :
    (fresh config balances host).Sound :=
  ⟨Store.coherent_empty, sound⟩

structure Inside (x : Exchange ρ) : Prop where
  store : 0 < x.store.depth
  openUnits : x.openUnits ≠ []

/-- `y` comes from `x` by journaled writes and by events handed to the innermost unit. -/
structure Above (x : Exchange ρ) (events : List Event) (y : Exchange ρ) : Prop where
  store : x.store.Above y.store
  ledger : x.ledger.Above y.ledger
  config : y.config = x.config
  log : y.log = x.log
  openUnits : y.openUnits = x.openUnits.modifyHead (· ++ events)
  inFlight : y.inFlight = x.inFlight
  sound : y.Sound

def Journaled (m : Action (Exchange ρ) α) : Prop :=
  ∀ x : Exchange ρ, x.Sound → x.Inside → ∃ events, x.Above events (m x).2

namespace Above

variable {x y z : Exchange ρ} {first second : List Event}

theorem refl (sound : x.Sound) : x.Above [] x where
  store := .refl _
  ledger := .refl _
  config := rfl
  log := rfl
  openUnits := by cases x.openUnits <;> simp
  inFlight := rfl
  sound

theorem trans (lower : x.Above first y) (upper : y.Above second z) :
    x.Above (first ++ second) z where
  store := lower.store.trans upper.store
  ledger := lower.ledger.trans upper.ledger
  config := upper.config.trans lower.config
  log := upper.log.trans lower.log
  openUnits := by
    rw [upper.openUnits, lower.openUnits]
    cases x.openUnits <;> simp
  inFlight := upper.inFlight.trans lower.inFlight
  sound := upper.sound

theorem inside (above : x.Above first y) (inside : x.Inside) : y.Inside where
  store := by rw [above.store.depth]; exact inside.store
  openUnits := by
    rw [above.openUnits]
    have := inside.openUnits
    cases h : x.openUnits <;> simp_all

theorem withHost (above : x.Above first y) (host : ρ) : x.Above first { y with host } :=
  ⟨above.store, above.ledger, above.config, above.log, above.openUnits, above.inFlight,
    above.sound.store, above.sound.ledger⟩

end Above

section Steps

theorem journaled_of_same {m : Action (Exchange ρ) α} (same : ∀ x, (m x).2 = x) : Journaled m :=
  fun x sound _ => ⟨[], by rw [same]; exact .refl sound⟩

theorem journaled_pure (a : α) : Journaled (pure a : Action (Exchange ρ) α) :=
  journaled_of_same fun _ => rfl

theorem journaled_fail (fault : Fault) : Journaled (Action.fail fault : Action (Exchange ρ) α) :=
  journaled_of_same fun _ => rfl

theorem journaled_read (f : Exchange ρ → α) : Journaled (Action.read f) :=
  journaled_of_same fun _ => rfl

theorem journaled_lift (outcome : Except Fault α) :
    Journaled (liftM outcome : Action (Exchange ρ) α) :=
  journaled_of_same fun _ => rfl

theorem Journaled.bind {m : Action (Exchange ρ) α} {f : α → Action (Exchange ρ) β}
    (first : Journaled m) (next : ∀ a, Journaled (f a)) : Journaled (m >>= f) := by
  intro x sound inside
  obtain ⟨events, above⟩ := first x sound inside
  rw [Action.bind_apply]
  cases h : m x with
  | mk outcome y =>
    rw [h] at above
    cases outcome with
    | error fault => exact ⟨events, above⟩
    | ok a =>
      obtain ⟨more, onward⟩ := next a y above.sound (above.inside inside)
      exact ⟨events ++ more, above.trans onward⟩

theorem requirePool_same (market : Market) (x : Exchange ρ) : (requirePool market x).2 = x := by
  unfold requirePool
  split <;> rfl

theorem requireBalance_same (asset : Asset) (account : Account) (amount : Nat) (x : Exchange ρ) :
    (requireBalance asset account amount x).2 = x := by
  unfold requireBalance
  dsimp only
  split <;> rfl

theorem journaled_requirePool (market : Market) :
    Journaled (requirePool market : Action (Exchange ρ) Pool) :=
  journaled_of_same (requirePool_same market)

theorem journaled_requireBalance (asset : Asset) (account : Account) (amount : Nat) :
    Journaled (requireBalance asset account amount : Action (Exchange ρ) Unit) :=
  journaled_of_same (requireBalance_same asset account amount)

theorem journaled_emit (event : Event) : Journaled (emit event : Action (Exchange ρ) Unit) := by
  intro x sound _
  refine ⟨[event], ?_⟩
  unfold emit
  simp only [Action.modify_apply]
  split
  next none => exact { Above.refl sound with openUnits := by rw [none]; rfl }
  next innermost outer some =>
    exact
      { store := .refl _, ledger := .refl _, config := rfl, log := rfl, inFlight := rfl
        openUnits := by rw [some]; rfl
        sound := ⟨sound.store, sound.ledger⟩ }

theorem Above.ofStore {x : Exchange ρ} {s : Store} (sound : x.Sound) (above : x.store.Above s)
    (coherent : s.Coherent) : x.Above [] { x with store := s } :=
  { Above.refl sound with store := above, sound := ⟨coherent, sound.ledger⟩ }

theorem journaled_putPool (market : Market) (pool : Pool) :
    Journaled (putPool market pool : Action (Exchange ρ) Unit) := by
  intro x sound _
  refine ⟨[], ?_⟩
  unfold putPool Lens.change Store.putPool
  simp only [storePlace]
  cases held : x.store.pool? market with
  | none => exact .refl sound
  | some before =>
    have above := Store.Above.writePool x.store market pool
    rw [held] at above
    exact .ofStore sound above (sound.store.writePool pool (some before))

theorem journaled_insertPool (market : Market) (pool : Pool) :
    Journaled (insertPool market pool : Action (Exchange ρ) Unit) := by
  intro x sound _
  refine ⟨[], ?_⟩
  unfold insertPool Lens.change Store.insertPool
  simp only [storePlace]
  cases held : x.store.pool? market with
  | some before => exact .refl sound
  | none =>
    have above := Store.Above.writePool x.store market pool
    rw [held] at above
    exact .ofStore sound above (sound.store.writePool pool none)

theorem journaled_recordPosition (market : Market) (provider : Account) (position : Position) :
    Journaled (Action.modify (storePlace.modify (Store.putPosition market provider position)) :
      Action (Exchange ρ) Unit) :=
  fun _ sound _ => ⟨[], .ofStore sound (.putPosition sound.store market provider position)
    (sound.store.putPosition position)⟩

theorem journaled_putPosition (market : Market) (provider : Account) (position : Position) :
    Journaled (putPosition market provider position : Action (Exchange ρ) Unit) := by
  intro x sound inside
  unfold putPosition
  simp only [Action.modify_apply]
  split
  · exact ⟨[], .refl sound⟩
  · exact journaled_recordPosition market provider position x sound inside

end Steps

theorem deliver_eq (events : List Event) (x : Exchange ρ) :
    (x.deliver events).config = x.config ∧ (x.deliver events).inFlight = x.inFlight ∧
      (x.deliver events).store = x.store ∧ (x.deliver events).ledger = x.ledger := by
  unfold deliver
  cases x.openUnits with
  | nil => exact ⟨rfl, rfl, rfl, rfl⟩
  | cons => exact ⟨rfl, rfl, rfl, rfl⟩

section Units

def opened (x : Exchange ρ) : Exchange ρ :=
  { x with
    store := { x.store with depth := x.store.depth + 1 }
    openUnits := [] :: x.openUnits }

/-- The exchange after a unit that was opened on `x` and ended well at `y`. -/
def closed (x y : Exchange ρ) (events : List Event) : Exchange ρ :=
  let journals : Store × Ledger :=
    if x.store.depth = 0 then
      (y.store.withJournal x.store.journal, { y.ledger with journal := x.ledger.journal })
    else (y.store, y.ledger)
  deliver events
    { y with
      store := { journals.1 with depth := x.store.depth }
      ledger := journals.2
      openUnits := x.openUnits }

variable {x y : Exchange ρ} {events : List Event}

theorem enter_eq (x : Exchange ρ) :
    x.enter = ([(Store.member storePlace, x.store.checkpoint),
      (Ledger.member ledgerPlace, x.ledger.checkpoint)], x.opened) := rfl

theorem Sound.opened (sound : x.Sound) : x.opened.Sound :=
  ⟨sound.store.congr rfl rfl, sound.ledger⟩

theorem inside_opened (x : Exchange ρ) : x.opened.Inside :=
  ⟨Nat.succ_pos _, List.cons_ne_nil _ _⟩

theorem lawful_storePlace : (storePlace : Lens (Exchange ρ) Store).Lawful :=
  ⟨fun _ _ => rfl, fun _ _ _ => rfl⟩

theorem leave_error (above : x.opened.Above events y) (fault : Fault) :
    (leave x.enter.1 (.error fault : Except Fault α) y) =
      (.error fault, { x with host := y.host }) := by
  have config : y.config = x.config := above.config
  have log : y.log = x.log := above.log
  have inFlight : y.inFlight = x.inFlight := above.inFlight
  have units : y.openUnits = events :: x.openUnits := above.openUnits
  have restored : Atomic.leave (Store.depthOf storePlace) x.enter.1
      (.error fault : Except Fault α) y =
      (.error fault, { y with store := x.store, ledger := x.ledger }) :=
    Store.leave_error_restores storePlace above.store lawful_storePlace fault
      (Ledger.rollbackAll_alone ledgerPlace above.ledger) rfl
  rw [leave, restored]
  simp [config, log, inFlight, units]

theorem leave_ok (above : x.opened.Above events y) (a : α) :
    (leave x.enter.1 (.ok a) y) = (.ok (a, events), x.closed y events) := by
  have units : y.openUnits = events :: x.openUnits := above.openUnits
  by_cases outermost : x.store.depth = 0
  · have committed : Atomic.leave (Store.depthOf storePlace) x.enter.1 (.ok a) y =
        (.ok a, { y with
          store := { y.store with journal := x.store.journal, depth := 0 }
          ledger := { y.ledger with journal := x.ledger.journal } }) :=
      Store.leave_ok_outermost storePlace above.store outermost a
        (Ledger.commitAll_alone ledgerPlace above.ledger) rfl
    rw [leave, committed]
    simp [closed, units, outermost, Store.withJournal]
  · have kept : Atomic.leave (Store.depthOf storePlace) x.enter.1 (.ok a) y =
        (.ok a, { y with store := { y.store with depth := x.store.depth } }) :=
      Store.leave_ok_within storePlace _ above.store outermost a
    rw [leave, kept]
    simp [closed, units, outermost]

variable {body : Action (Exchange ρ) α}

theorem collect_eq (body : Action (Exchange ρ) α) (x : Exchange ρ) :
    collect body x = leave x.enter.1 (body x.opened).1 (body x.opened).2 := rfl

/-- A unit around journaled steps restores the exchange if it fails, and otherwise keeps what its
body wrote. -/
theorem Journaled.collect (journaled : Journaled body) (sound : x.Sound) :
    ∃ events, x.opened.Above events (body x.opened).2 ∧
      ((∃ fault, (body x.opened).1 = .error fault ∧
          collect body x = (.error fault, { x with host := (body x.opened).2.host })) ∨
        ∃ a, (body x.opened).1 = .ok a ∧
          collect body x = (.ok (a, events), x.closed (body x.opened).2 events)) := by
  obtain ⟨events, above⟩ := journaled x.opened sound.opened (inside_opened x)
  refine ⟨events, above, ?_⟩
  rw [collect_eq]
  cases (body x.opened).1 with
  | error fault => exact .inl ⟨fault, rfl, leave_error above fault⟩
  | ok a => exact .inr ⟨a, rfl, leave_ok above a⟩

theorem atomic_leave_ok (x w : Exchange ρ) (a : α) :
    ∃ v, Atomic.leave (Store.depthOf storePlace) x.enter.1 (.ok a) w = (.ok a, v) ∧
      v.store.pools = w.store.pools ∧ v.ledger.balances = w.ledger.balances := by
  refine ⟨_, rfl, ?_⟩
  rw [enter_eq]
  dsimp only
  split
  · exact ⟨rfl, rfl⟩
  · exact ⟨rfl, rfl⟩

theorem unit_committed {a : α} (done : unit body x = (.ok a, y)) :
    ∃ w, body x.opened = (.ok a, w) ∧ y.store.pools = w.store.pools ∧
      y.ledger.balances = w.ledger.balances := by
  obtain ⟨⟨b, events⟩, ended, rfl⟩ := Action.map_eq_ok done
  rw [collect_eq] at ended
  cases ran : body x.opened with
  | mk outcome w =>
    rw [ran] at ended
    cases outcome with
    | error fault =>
      cases rolled : Atomic.rollbackAll x.enter.1.reverse w with
      | mk undone v =>
        simp only [leave, Atomic.leave, rolled] at ended
        cases undone with
        | ok => cases ended
        | error other => cases ended
    | ok a =>
      obtain ⟨v, left, pools, balances⟩ := atomic_leave_ok x w a
      simp only [leave, left] at ended
      cases ended
      obtain ⟨-, -, store, ledger⟩ := deliver_eq (v.openUnits.headD [])
        { v with openUnits := v.openUnits.tail }
      refine ⟨w, rfl, ?_, ?_⟩
      · rw [store]
        exact pools
      · rw [ledger]
        exact balances

end Units

end Exchange

end LiquidityPools
