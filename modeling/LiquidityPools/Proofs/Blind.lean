import LiquidityPools.Proofs.Settlement

/-!
What a settlement cannot see. Over a carrier with a fixed rule, it reads its configuration through
the width of balances and the fee account only: neither the page size, nor which markets are in
flight, nor the carrier's own state makes a difference to what it does, and it leaves all three as
they are.
-/

namespace LiquidityPools

variable {ρ α β : Type}

/-- What settlements cannot see of an exchange. -/
structure Guise (ρ : Type) where
  pageSize : Nat
  pageSize_pos : 0 < pageSize
  inFlight : List Market
  host : ρ

namespace Exchange

def guise (x : Exchange ρ) : Guise ρ :=
  ⟨x.config.pageSize, x.config.pageSize_pos, x.inFlight, x.host⟩

def guised (g : Guise ρ) (x : Exchange ρ) : Exchange ρ :=
  { x with
    config := { x.config with pageSize := g.pageSize, pageSize_pos := g.pageSize_pos }
    inFlight := g.inFlight
    host := g.host }

variable {x y : Exchange ρ} {events : List Event}

theorem Sound.guised (sound : x.Sound) (g : Guise ρ) : (x.guised g).Sound :=
  ⟨sound.store, sound.ledger⟩

theorem deliver_guised (g : Guise ρ) (events : List Event) (x : Exchange ρ) :
    (x.guised g).deliver events = (x.deliver events).guised g := by
  have same : (x.guised g).openUnits = x.openUnits := rfl
  unfold deliver
  rw [same]
  cases x.openUnits <;> rfl

theorem closed_guised (g : Guise ρ) (x y : Exchange ρ) (events : List Event) :
    (x.guised g).closed (y.guised g) events = (x.closed y events).guised g := by
  rw [closed, closed, ← deliver_guised]
  rfl

/-- A journaled step that, inside a unit, does the same in every guise. -/
structure Blind (m : Action (Exchange ρ) α) : Prop where
  journaled : Journaled m
  same : ∀ (g : Guise ρ) (x : Exchange ρ), x.Sound → x.Inside →
    m (x.guised g) = ((m x).1, (m x).2.guised g)

namespace Blind

variable {m : Action (Exchange ρ) α} {f : α → Action (Exchange ρ) β}

theorem pure (a : α) : Blind (Pure.pure a : Action (Exchange ρ) α) :=
  ⟨journaled_pure a, fun _ _ _ _ => rfl⟩

theorem lift (outcome : Except Fault α) : Blind (liftM outcome : Action (Exchange ρ) α) :=
  ⟨journaled_lift outcome, fun _ _ _ _ => rfl⟩

theorem bind (first : Blind m) (next : ∀ a, Blind (f a)) : Blind (m >>= f) where
  journaled := first.journaled.bind fun a => (next a).journaled
  same := by
    intro g x sound inside
    obtain ⟨events, above⟩ := first.journaled x sound inside
    rw [Action.bind_apply, Action.bind_apply, first.same g x sound inside]
    cases h : m x with
    | mk outcome z =>
      rw [h] at above
      cases outcome with
      | error fault => rfl
      | ok a => exact (next a).same g z above.sound (above.inside inside)

theorem read {look : Exchange ρ → α} (same : ∀ (g : Guise ρ) x, f (look (x.guised g)) = f (look x))
    (next : ∀ a, Blind (f a)) : Blind (Action.read look >>= f) where
  journaled := (journaled_read look).bind fun a => (next a).journaled
  same := by
    intro g x sound inside
    rw [Action.bind_read, Action.bind_read, same]
    exact (next _).same g x sound inside

section Steps

variable {market : Market} {asset : Asset} {source dest : Account} {amount : Nat}

theorem requirePool : Blind (requirePool market : Action (Exchange ρ) Pool) where
  journaled := journaled_requirePool market
  same g x _ _ := by
    have same : (x.guised g).store.pool? market = x.store.pool? market := rfl
    simp only [Exchange.requirePool, same]
    split <;> rfl

theorem putPool (pool : Pool) : Blind (putPool market pool : Action (Exchange ρ) Unit) where
  journaled := journaled_putPool market pool
  same g x _ _ := by
    have same : (x.guised g).store.pool? market = x.store.pool? market := rfl
    simp only [Exchange.putPool, Lens.change, storePlace, Store.putPool, same]
    cases x.store.pool? market <;> rfl

theorem emit (event : Event) : Blind (emit event : Action (Exchange ρ) Unit) where
  journaled := journaled_emit event
  same g x _ _ := by
    rw [emit_eq, emit_eq]
    rfl

theorem transfer (refuses : Carrier.Refusal) :
    Blind ((Carrier.refusing refuses : Carrier ρ).transfer asset source dest amount) where
  journaled := (Carrier.plain_refusing refuses).journaled asset source dest amount
  same g x _ _ := by
    simp only [Carrier.refusing, Carrier.direct]
    split
    next => rfl
    next =>
      have same : (x.guised g).ledger = x.ledger := rfl
      simp only [Lens.change, ledgerPlace, same]
      cases x.ledger.move asset source dest amount <;> rfl

end Steps

theorem unit {body : Action (Exchange ρ) α} (blind : Blind body) (sound : x.Sound) (g : Guise ρ) :
    Exchange.unit body (x.guised g) =
      ((Exchange.unit body x).1, (Exchange.unit body x).2.guised g) := by
  obtain ⟨events, above⟩ := blind.journaled x.opened sound.opened (inside_opened x)
  obtain ⟨events', above'⟩ :=
    blind.journaled (x.guised g).opened (sound.guised g).opened (inside_opened _)
  have same : body (x.guised g).opened = ((body x.opened).1, (body x.opened).2.guised g) :=
    blind.same g x.opened sound.opened (inside_opened x)
  have collected : collect body (x.guised g) =
      ((collect body x).1, (collect body x).2.guised g) := by
    rw [collect_eq, collect_eq, same]
    rw [same] at above'
    cases ran : body x.opened with
    | mk outcome y =>
      rw [ran] at above above'
      cases outcome with
      | error fault =>
        rw [leave_error above, leave_error above']
        rfl
      | ok a =>
        have alike : events' = events := by
          have units : y.openUnits = events' :: x.openUnits := above'.openUnits
          have units' : y.openUnits = events :: x.openUnits := above.openUnits
          rw [units] at units'
          exact (List.cons.inj units').1
        rw [leave_ok above, leave_ok above', alike, closed_guised]
  rw [Exchange.unit, Action.map_apply, Action.map_apply, collected]

end Blind

section Payments

variable {carrier : Carrier ρ} {market : Market} {pool : Pool} {weights : Nat × Nat}
    {tally : Payout.Tally}

def payAll (carrier : Carrier ρ) (market : Market) (pool : Pool) (weights : Nat × Nat)
    (positions : List (Account × Position)) (tally : Payout.Tally) :
    Action (Exchange ρ) Payout.Tally :=
  positions.foldlM (fun tally item =>
    payProvider carrier market pool weights item.1 item.2 tally) tally

/-- Over a plain carrier, a walk comes to the positions that it has yet to hand out. -/
theorem payProviders_eq_payAll (plain : carrier.Plain) (sound : x.Sound) {bound : Nat} {walk : Walk}
    {rest : List (Account × Position)} (before : walk.Before x.store rest)
    (within : rest.length < bound) :
    payProviders carrier market pool weights bound walk tally x =
      payAll carrier market pool weights rest tally x := by
  induction bound generalizing walk rest x tally with
  | zero => omega
  | succ bound ih =>
    rw [payProviders, Action.bind_read]
    cases rest with
    | nil =>
      rw [Walk.next_eq_none before sound.store]
      rfl
    | cons item rest =>
      obtain ⟨walk', next, before'⟩ := Walk.next_eq_some before sound.store
      rw [next, payAll, List.foldlM_cons]
      rcases yields_payProvider plain sound item.1 item.2 with
        ⟨fault, y, failed, -⟩ | ⟨after, y, done, -, pays⟩
      · exact (Action.bind_error failed _).trans (Action.bind_error failed _).symm
      · refine (Action.bind_ok done _).trans (Eq.trans ?_ (Action.bind_ok done _).symm)
        exact ih pays.sound (by rw [pays.store]; exact before') (by simpa using within)

def payOutAll (carrier : Carrier ρ) (market : Market) :
    Action (Exchange ρ) (List Payout × Nat × Nat) := do
  let market ← marketOf (.int market.base) (.int market.quote)
  let pool ← requirePool market
  let config ← Action.read (·.config)
  let positions ← Action.read (·.store.positionsOf market)
  let (totalBase, totalQuote) ← Payout.totals config.cap positions
  let weights := (max pool.baseReserve totalBase, max pool.quoteReserve totalQuote)
  let tally ← payAll carrier market pool weights positions {}
  let baseDust ← Amount.sub config.cap pool.baseFees tally.base
  let quoteDust ← Amount.sub config.cap pool.quoteFees tally.quote
  putPool market pool.withoutFees
  pure (tally.payouts, baseDust, quoteDust)

theorem payOut_eq_payOutAll (plain : carrier.Plain) (sound : x.Sound) (market : Market) :
    payOut carrier market x = payOutAll carrier market x := by
  refine Action.bind_congr fun checked y named => ?_
  obtain ⟨-, rfl⟩ := Prod.mk.inj named
  refine Action.bind_congr fun pool y found => ?_
  obtain rfl : y = x := by
    unfold requirePool at found
    split at found <;> cases found
    rfl
  rw [Action.bind_read, Action.bind_read, Action.bind_read, Action.bind_read]
  refine Action.bind_congr fun totals z summed => ?_
  obtain ⟨-, rfl⟩ := Prod.mk.inj summed
  have before := Walk.before_start y.store checked y.config.pageSize_pos
  dsimp only
  rw [Action.bind_apply, Action.bind_apply, payProviders_eq_payAll plain sound before (by omega)]

theorem settle_eq_unit (plain : carrier.Plain) (sound : x.Sound) (market : Market) :
    settle carrier market x = unit (payOutAll carrier market) x := by
  rw [settle, unit, unit, Action.map_apply, Action.map_apply, collect_eq, collect_eq,
    payOut_eq_payOutAll plain sound.opened]

theorem blind_payProvider (refuses : Carrier.Refusal) (provider : Account) (position : Position) :
    Blind (payProvider (.refusing refuses : Carrier ρ) market pool weights provider position
      tally) := by
  refine .read (fun _ _ => rfl) fun config => ?_
  refine .bind (.lift _) fun base => .bind (.lift _) fun quote => ?_
  split
  · exact .pure _
  refine .bind (.transfer refuses) fun _ => .bind (.transfer refuses) fun _ => ?_
  refine .bind (.lift _) fun paidBase => .bind (.lift _) fun paidQuote => ?_
  exact .bind (.emit _) fun _ => .pure _

theorem blind_payAll (refuses : Carrier.Refusal) (positions : List (Account × Position)) :
    Blind (payAll (.refusing refuses : Carrier ρ) market pool weights positions tally) := by
  induction positions generalizing tally with
  | nil => exact .pure tally
  | cons item rest ih =>
    rw [payAll, List.foldlM_cons]
    exact .bind (blind_payProvider refuses item.1 item.2) fun tally => ih

theorem blind_payOutAll (refuses : Carrier.Refusal) (market : Market) :
    Blind (payOutAll (.refusing refuses : Carrier ρ) market) := by
  refine .bind (.lift _) fun market => .bind .requirePool fun pool => ?_
  refine .read (fun _ _ => rfl) fun config => .read (fun _ _ => rfl) fun positions => ?_
  refine .bind (.lift _) fun totals => .bind (blind_payAll refuses positions) fun tally => ?_
  refine .bind (.lift _) fun baseDust => .bind (.lift _) fun quoteDust => ?_
  exact .bind (.putPool _) fun _ => .pure _

theorem settle_guised (refuses : Carrier.Refusal) (sound : x.Sound) (market : Market)
    (g : Guise ρ) :
    settle (.refusing refuses) market (x.guised g) =
      ((settle (.refusing refuses) market x).1,
        (settle (.refusing refuses) market x).2.guised g) := by
  rw [settle_eq_unit (Carrier.plain_refusing refuses) sound,
    settle_eq_unit (Carrier.plain_refusing refuses) (sound.guised g)]
  exact (blind_payOutAll refuses market).unit sound g

theorem guise_settle (refuses : Carrier.Refusal) (sound : x.Sound) (market : Market) :
    (settle (.refusing refuses) market x).2 =
      (settle (.refusing refuses) market x).2.guised x.guise :=
  congrArg Prod.snd (settle_guised refuses sound market x.guise)

theorem settle_failed {refuses : Carrier.Refusal} (sound : x.Sound) {fault : Fault}
    (failed : settle (.refusing refuses) market x = (.error fault, y)) : y = x := by
  obtain ⟨host, rfl⟩ :=
    (allOrNothing_settle (Carrier.plain_refusing refuses).journaled market).whole x sound
      fault y failed
  have kept := guise_settle refuses sound market
  rw [failed] at kept
  have same : host = x.host := congrArg Exchange.host kept
  rw [same]

/-- It makes no difference to a settlement that its market is in flight meanwhile. -/
theorem settleInFlight_eq_attempt (refuses : Carrier.Refusal) (sound : x.Sound)
    (fresh : market ∉ x.inFlight) :
    settleInFlight (.refusing refuses) market x =
      Action.attempt (settle (.refusing refuses) market) x := by
  have taken : settle (.refusing refuses) market (x.taking market) =
      ((settle (.refusing refuses) market x).1, (settle (.refusing refuses) market x).2.guised
        { x.guise with inFlight := market :: x.inFlight }) :=
    settle_guised refuses sound market { x.guise with inFlight := market :: x.inFlight }
  rw [settleInFlight_eq (Carrier.plain_refusing refuses).journaled sound fresh taken,
    Action.attempt]
  exact congrArg (Prod.mk _) (guise_settle refuses sound market).symm

end Payments

end Exchange

end LiquidityPools
