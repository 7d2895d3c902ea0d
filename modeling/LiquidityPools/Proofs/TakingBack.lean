import LiquidityPools.Proofs.Indifference
import LiquidityPools.Proofs.Paired

/-!
Liquidity that is added and taken out again at once. The withdrawal succeeds: the pool account has
just got what it pays back, and the caller has room for what it has just paid. It leaves pools,
positions and balances as they were before the deposit, but for the record of an empty position, and
that makes no difference to anything that a host does later.
-/

namespace LiquidityPools

variable {ρ α : Type}

namespace Ledger

variable {l k : Ledger} {asset : Asset} {source dest : Account} {amount : ℕ}

theorem exists_move_of_held (sound : k.Sound) (before : l.Sound)
    (cap : k.balances.cap = l.balances.cap) (enough : amount ≤ k.balance asset source)
    (room : k.balance asset dest + amount ≤ l.balance asset dest) :
    ∃ j, k.move asset source dest amount = .ok j := by
  by_cases idle : amount = 0 ∨ source = dest
  · exact ⟨k, move_of_idle idle⟩
  · have moving := not_or.1 idle
    rcases move_of_moving sound asset moving with ⟨-, done⟩ | ⟨refused, -⟩
    · exact ⟨_, done⟩
    · refine absurd ⟨enough, ?_⟩ refused
      have held : l.balances.get dest asset ≠ 0 := by
        unfold balance at room
        omega
      rw [Balances.exceeded?, cap]
      refine Balances.exceeded?_eq_none_of_le ?_ (Balances.Sound.fits before held)
      exact_mod_cast room

theorem cap_of_move (sound : l.Sound) (moved : l.move asset source dest amount = .ok k) :
    k.balances.cap = l.balances.cap :=
  Balances.cap_of_move sound (Balances.move_of_ledger moved)

theorem exists_moves_back (sound : k.Sound) (before : l.Sound)
    (cap : k.balances.cap = l.balances.cap)
    {other : Asset} (apart : asset ≠ other) (outside : source ≠ dest) {amount' : ℕ}
    (paid : ∀ a account, (k.balance a account : Int) = l.balance a account +
      Balances.changeOf [⟨asset, source, dest, amount⟩, ⟨other, source, dest, amount'⟩] a account) :
    ∃ i j, k.move asset dest source amount = .ok i ∧ i.move other dest source amount' = .ok j := by
  simp only [Balances.changeOf_cons, Balances.changeOf_nil, Movement.change] at paid
  have atDest := paid asset dest
  have atSource := paid asset source
  have atDest' := paid other dest
  have atSource' := paid other source
  simp only [apart, apart.symm, outside, outside.symm, and_true, and_false, if_true, if_false]
    at atDest atSource atDest' atSource'
  have first : ∃ i, k.move asset dest source amount = .ok i :=
    exists_move_of_held sound before cap (by omega) (by omega)
  obtain ⟨i, first⟩ := first
  obtain ⟨sound', -, -, changes⟩ := move_effect sound first
  have kept (account : Account) : (i.balance other account : Int) = k.balance other account := by
    rw [changes other account, Movement.change_of_ne_asset apart.symm, Int.add_zero]
  have keptDest := kept dest
  have keptSource := kept source
  have second : ∃ j, i.move other dest source amount' = .ok j :=
    exists_move_of_held sound' before ((cap_of_move sound first).trans cap) (by omega) (by omega)
  obtain ⟨j, second⟩ := second
  exact ⟨i, j, first, second⟩

end Ledger

namespace Store

variable {s : Store} {market : Market} {provider : Account} {position : Position}

theorem position?_keepPosition (other : Market) (account : Account) :
    (s.keepPosition market provider position).position? other account =
      if (other, account) = (market, provider) ∧
          (position.isEmpty = false ∨ s.hasPosition market provider = true) then some position
      else s.position? other account := by
  unfold keepPosition
  by_cases skipped : (position.isEmpty && !s.hasPosition market provider) = true
  · rw [if_pos skipped, if_neg]
    simp only [Bool.and_eq_true, Bool.not_eq_true'] at skipped
    simp [skipped]
  · rw [if_neg skipped, position?_putPosition]
    refine if_congr ?_ rfl rfl
    rw [iff_self_and]
    rintro -
    simpa [imp_iff_not_or] using skipped

theorem position_of_absent (absent : s.hasPosition market provider = false) :
    s.position market provider = .empty := by
  have none : s.position? market provider = none := by simpa [hasPosition] using absent
  rw [Store.position, none, Option.getD_none]

variable (s market provider) (base quote : ℕ) (other : Market) (account : Account)

theorem position?_added :
    ((Deal.added provider market base quote).write s).position? other account =
      if (other, account) = (market, provider) ∧
          ((base ≠ 0 ∨ quote ≠ 0) ∨ s.hasPosition market provider = true) then
        some ⟨(s.position market provider).base + base, (s.position market provider).quote + quote⟩
      else s.position? other account := by
  refine (position?_keepPosition other account).trans ?_
  have recorded (f : Pool → Pool) : (s.revise market f).hasPosition market provider =
      s.hasPosition market provider := by rw [hasPosition, position?_revise, hasPosition]
  rw [position?_revise, recorded]
  refine if_congr (and_congr_right fun _ => ?_) rfl rfl
  cases known : s.hasPosition market provider with
  | true => simp
  | false =>
    rw [position_of_absent known]
    simp [Position.isEmpty, Position.empty, imp_iff_not_or]

theorem position?_withdrawn :
    ((Deal.withdrawn provider market base quote).write s).position? other account =
      if (other, account) = (market, provider) ∧ s.hasPosition market provider = true then
        some ⟨(s.position market provider).base - base, (s.position market provider).quote - quote⟩
      else s.position? other account := by
  refine (position?_keepPosition other account).trans ?_
  have recorded (f : Pool → Pool) : (s.revise market f).hasPosition market provider =
      s.hasPosition market provider := by rw [hasPosition, position?_revise, hasPosition]
  rw [position?_revise, recorded]
  refine if_congr (and_congr_right fun _ => ?_) rfl rfl
  cases known : s.hasPosition market provider with
  | true => simp
  | false =>
    rw [position_of_absent known]
    simp [Position.isEmpty, Position.empty]

/-- Adding to a position and taking the same away again leaves a record of it, if anything was
added. -/
theorem position?_addedWithdrawn :
    ((Deal.withdrawn provider market base quote).write
      ((Deal.added provider market base quote).write s)).position?
        other account =
      if (other, account) = (market, provider) ∧ (base ≠ 0 ∨ quote ≠ 0) then
        some (s.position market provider)
      else s.position? other account := by
  have added := s.position?_added market provider base quote
  rw [position?_withdrawn, added, position, hasPosition, added]
  by_cases here : (other, account) = (market, provider)
  · cases here
    by_cases counts : (base ≠ 0 ∨ quote ≠ 0) ∨ s.hasPosition market provider = true
    · simp only [counts, and_self, if_true, Option.isSome_some, Option.getD_some,
        Nat.add_sub_cancel, true_and]
      split
      next => rfl
      next idle =>
        obtain ⟨held, known⟩ := Option.isSome_iff_exists.1 (counts.resolve_left idle)
        rw [Store.position, known, Option.getD_some]
    · obtain ⟨idle, unrecorded⟩ := not_or.1 counts
      have absent : ¬ (s.position? market provider).isSome = true := unrecorded
      simp [idle, unrecorded, absent]
  · simp only [here, false_and, if_false]

theorem pool?_added :
    ((Deal.added provider market base quote).write s).pool? other =
      if other = market then
        (s.pool? market).map fun pool =>
          { pool with
            baseReserve := pool.baseReserve + base, quoteReserve := pool.quoteReserve + quote }
      else s.pool? other :=
  (pool?_keepPosition ..).trans (s.pool?_revise market other _)

theorem pool?_addedWithdrawn :
    ((Deal.withdrawn provider market base quote).write
      ((Deal.added provider market base quote).write s)).pool?
        other = s.pool? other := by
  refine ((pool?_keepPosition ..).trans (pool?_revise _ market other _)).trans ?_
  rw [pool?_added, pool?_added, if_pos rfl]
  split
  next here =>
    rw [here, Option.map_map]
    cases s.pool? market with
    | none => rfl
    | some pool => simp
  next => rfl

end Store

namespace Exchange

variable {x y z : Exchange ρ} {account : Account} {market : Market} {base quote : ℕ}
    {position : Position}
  {caller pair baseAmount quoteAmount : Value}

section Arguments

structure Accepted (c : Config) (caller pair baseAmount quoteAmount : Value) (account : Account)
    (market : Market) (base quote : ℕ) : Prop where
  caller : callerOf c caller = .ok account
  market : marketOfPair pair = .ok market
  base : amountOf c "base_amount" baseAmount = .ok base
  quote : amountOf c "quote_amount" quoteAmount = .ok quote

theorem depositOf_eq_ok {carrier : Carrier ρ}
    (done : depositOf carrier caller pair baseAmount quoteAmount x = (.ok position, y)) :
    ∃ account market base quote, Accepted x.config caller pair baseAmount quoteAmount account market
      base quote ∧ deposit carrier account market base quote x = (.ok position, y) := by
  rw [depositOf, Action.bind_read] at done
  obtain ⟨account, called, done⟩ := Action.bind_lift_eq_ok done
  obtain ⟨market, named, done⟩ := Action.bind_lift_eq_ok done
  obtain ⟨base, baseGiven, done⟩ := Action.bind_lift_eq_ok done
  obtain ⟨quote, quoteGiven, done⟩ := Action.bind_lift_eq_ok done
  exact ⟨account, market, base, quote, ⟨called, named, baseGiven, quoteGiven⟩, done⟩

theorem withdrawOf_of_accepted (carrier : Carrier ρ)
    (accepted : Accepted x.config caller pair baseAmount quoteAmount account market base quote) :
    withdrawOf carrier caller pair baseAmount quoteAmount x =
      withdraw carrier account market base quote x := by
  rw [withdrawOf, Action.bind_read, accepted.caller, Action.bind_lift, accepted.market,
    Action.bind_lift, accepted.base, Action.bind_lift, accepted.quote, Action.bind_lift]

end Arguments

theorem direct_of_move {asset : Asset} {source dest : Account} {amount : ℕ} {l : Ledger}
    (moved : x.ledger.move asset source dest amount = .ok l) :
    Carrier.direct.transfer asset source dest amount x = (.ok (), { x with ledger := l }) := by
  simp only [Carrier.direct, Lens.change, ledgerPlace, moved]

/-- What was added on top of a pool and a position can be taken out of both. -/
theorem ends_removeLiquidity_of_added {pool : Pool} {held : Position} {i j : Ledger}
    (pooled : x.store.pool? market = some
      { pool with
        baseReserve := pool.baseReserve + base, quoteReserve := pool.quoteReserve + quote })
    (positioned : x.store.position market account = ⟨held.base + base, held.quote + quote⟩)
    (fits : pool.baseReserve + base ≤ x.cap ∧ pool.quoteReserve + quote ≤ x.cap)
    (heldFits : held.base + base ≤ x.cap ∧ held.quote + quote ≤ x.cap)
    (movedBase : x.ledger.move market.base x.config.poolAccount account base = .ok i)
    (movedQuote : i.move market.quote x.config.poolAccount account quote = .ok j) :
    Ends (removeLiquidity .direct account market base quote) x (fun _ => False) fun left _ =>
      left = held := by
  have less {a b cap : ℕ} (fits : a + b ≤ cap) : Amount.sub cap (a + b : ℕ) b = .ok a :=
    Amount.sub_eq_ok_iff.2 ⟨Nat.le_add_left .., (Nat.add_sub_cancel ..).symm, by omega⟩
  refine .requirePool (fun absent => ?_) fun found same => ?_
  · rw [pooled] at absent
    cases absent
  obtain rfl := Option.some.inj (pooled.symm.trans same)
  refine .read ?_
  rw [positioned, if_neg (by dsimp only; omega)]
  refine .read (.computed (less heldFits.1) (.computed (less heldFits.2) ?_))
  refine .computed (less fits.1) (.computed (less fits.2) (.read ?_))
  refine .step (direct_of_move movedBase) (.step (direct_of_move movedQuote) ?_)
  exact .putPool pooled (.step (putPosition_eq ..) (.step (emit_eq ..) (.pure rfl)))

/-- `z` is `x` again, but for what was told, and for the record of the caller's position if it was
changed in between. -/
structure Restores (x : Exchange ρ) (account : Account) (market : Market) (base quote : ℕ)
    (z : Exchange ρ) :
    Prop where
  pools : z.store.pools = x.store.pools
  position? : ∀ m a, z.store.position? m a =
    if (m, a) = (market, account) ∧ (base ≠ 0 ∨ quote ≠ 0) then
      some (x.store.position market account)
    else x.store.position? m a
  balances : z.ledger.balances = x.ledger.balances
  told : x.Follows [.liquidity .liquidityAdded account market base quote,
    .liquidity .liquidityWithdrawn account market base quote] z

theorem restores_of_leads (sound : x.Sound) (leads : x.Leads [.added account market base quote] y)
    (leads' : y.Leads [.withdrawn account market base quote] z) :
    x.Restores account market base quote z := by
  have taken := leads.run.taken
  have taken' := leads'.run.taken
  have sound' := leads.follows.sound
  have store : z.store.bare = (Deal.withdrawn account market base quote).write
      ((Deal.added account market base quote).write x.store.bare) := by
    have first : y.store.bare = _ := taken.store
    have second : z.store.bare = _ := taken'.store
    rw [second]
    exact congrArg (Deal.write · (.withdrawn account market base quote)) first
  exact
    { pools := by
        refine Table.ext_get? fun m => ?_
        show z.store.bare.pool? m = x.store.bare.pool? m
        rw [store, Store.pool?_addedWithdrawn]
      position? := fun m a => by
        show z.store.bare.position? m a = _
        rw [store, Store.position?_addedWithdrawn]
        rfl
      balances := by
        have cap := (Balances.cap_of_moveAll sound'.ledger taken'.moved).trans
          (Balances.cap_of_moveAll sound.ledger taken.moved)
        refine Balances.Sound.ext leads'.follows.sound.ledger sound.ledger cap fun a asset => ?_
        have paid := (Balances.moveAll_effect sound.ledger taken.moved).2.2 a asset
        have repaid := (Balances.moveAll_effect sound'.ledger taken'.moved).2.2 a asset
        rw [leads.follows.config] at repaid
        have back : Balances.changeOf
            ((Deal.withdrawn account market base quote).movements x.config) asset a =
            -Balances.changeOf ((Deal.added account market base quote).movements x.config)
              asset a := by
          simp only [Deal.movements, Balances.changeOf_cons, Balances.changeOf_nil, Movement.change]
          omega
        have held : y.books.balances = y.ledger.balances := rfl
        rw [back, ← held, paid] at repaid
        have whole : z.books.balances = z.ledger.balances := rfl
        rw [← whole]
        omega
      told := leads.follows.trans leads'.follows }

theorem withdraw_of_deposit (sound : x.Sound) (may : x.config.MayCall account)
    (valid : market.Valid)
    (done : deposit .direct account market base quote x = (.ok position, y)) :
    ∃ z, withdraw .direct account market base quote y = (.ok (x.store.position market account), z) ∧
      x.Restores account market base quote z := by
  have direct := Carrier.plain_direct (ρ := ρ).journaled
  have leads := leads_unit (journaled_addLiquidity direct account market base quote) sound
    (fun w body => enters_addLiquidity Carrier.plain_direct sound.opened may valid body) done
  have taken := leads.run.taken
  have sound' := leads.follows.sound
  have config := leads.follows.config
  obtain ⟨-, -, pool, held, fits, heldFits⟩ := taken.allowed
  have store : y.store.bare =
      (Deal.added account market base quote).write x.store.bare := taken.store
  have pooled : y.opened.store.pool? market = some
      { pool with
        baseReserve := pool.baseReserve + base, quoteReserve := pool.quoteReserve + quote } := by
    show y.store.bare.pool? market = _
    rw [store, Store.pool?_added, if_pos rfl]
    exact congrArg (Option.map _) held
  have positioned : y.opened.store.position market account =
      ⟨(x.store.position market account).base + base,
        (x.store.position market account).quote + quote⟩ := by
    show y.store.bare.position market account = _
    rw [store]
    exact (Store.position_keepPosition ..).trans (if_pos rfl)
  -- what was just paid fits where it came from, whatever the cap
  obtain ⟨i, j, movedBase, movedQuote⟩ := Ledger.exists_moves_back sound'.ledger sound.ledger
    (Balances.cap_of_moveAll sound.ledger taken.moved) valid.2.2 may.2.1
    fun a holder => (Balances.moveAll_effect sound.ledger taken.moved).2.2 holder a
  rw [← config] at movedBase movedQuote fits heldFits
  have journaled := journaled_removeLiquidity direct account market base quote
  have body : Ends (removeLiquidity .direct account market base quote) y.opened (fun _ => False)
      fun left _ => left = x.store.position market account :=
    ends_removeLiquidity_of_added pooled positioned fits heldFits movedBase movedQuote
  rcases Ends.unit journaled sound' body with ⟨_, _, _, none⟩ | ⟨_, z, ended, rfl⟩
  · exact none.elim
  · rw [← config] at may
    exact ⟨z, ended, restores_of_leads sound leads (leads_unit journaled sound'
      (fun w body => enters_removeLiquidity Carrier.plain_direct sound'.opened may valid body)
        ended)⟩

section Later

theorem exists_parting (x : Exchange ρ) : ∃ first outer, x.places = first :: outer := by
  cases places : x.places with
  | nil => simp [Exchange.places] at places
  | cons first outer => exact ⟨first, outer, rfl⟩

theorem Managed.sound {m : Action (Exchange ρ) α} (managed : Managed m) (sound : x.Sound) :
    (m x).2.Sound := by
  obtain ⟨first, outer, places⟩ := x.exists_parting
  have tell : Parting.Tell ⟨first, first, outer⟩ x.places x.places :=
    ⟨[], [], by simp [places], by simp [places]⟩
  exact (managed.indifferent _ x x ⟨rfl, rfl, fun _ _ => rfl, rfl, rfl, tell, sound, sound⟩).2.sound

theorem since_of_places {y' : Exchange ρ} {first told : List Event}
    {inner outer : List (List Event)}
    (places : x.places = first :: outer) (places' : y'.places = inner ++ (first ++ told) :: outer) :
    x.since y' = told ++ inner.reverse.flatten := by
  have events (w : Exchange ρ) : w.events = w.places.reverse.flatten := by
    simp [Exchange.events, Exchange.places]
  have before : x.events = outer.reverse.flatten ++ first := by simp [events, places]
  have after : y'.events = x.events ++ (told ++ inner.reverse.flatten) := by
    rw [before, events, places']
    simp
  rw [since, after, List.drop_left]

theorem since_eq_of_alike {p : Parting} {x' z' : Exchange ρ}
    (places : x.places = p.first :: p.outer)
    (places' : z.places = p.second :: p.outer) (alike : x'.Alike p z') :
    z.since z' = x.since x' := by
  obtain ⟨inner, told, first, second⟩ := alike.tell
  rw [since_of_places places first, since_of_places places' second]

theorem position_of_restores (restores : x.Restores account market base quote z) (m : Market)
    (a : Account) :
    z.store.position m a = x.store.position m a := by
  rw [Store.position, restores.position?]
  split
  next here =>
    obtain ⟨⟨rfl, rfl⟩, -⟩ := And.imp_left Prod.mk.inj here
    rfl
  next => rfl

theorem Restores.alike (restores : x.Restores account market base quote z) (sound : x.Sound) :
    ∃ p : Parting, x.places = p.first :: p.outer ∧ z.places = p.second :: p.outer ∧
      x.Alike p z := by
  obtain ⟨first, outer, places⟩ := x.exists_parting
  have told := places_of_delivers restores.told.delivers
  rw [places, List.modifyHead_cons] at told
  refine ⟨⟨first, _, outer⟩, places, told,
    { config := restores.told.config
      pools := restores.pools
      position := position_of_restores restores
      balances := restores.balances
      inFlight := restores.told.inFlight
      tell := ⟨[], [], by rw [places, List.append_nil]; rfl, by rw [told, List.append_nil]; rfl⟩
      sound
      sound' := restores.told.sound }⟩

/-- The exchanges that a host can make over a ledger of the exchange's own, with a cap on balances
or without: it has things done on a new one, and opens units to have more done inside. -/
inductive Attained (config : Config) : Exchange ρ → Prop
  | start (cap : Option Cap) (host : ρ) : Attained config (fresh config { cap } host)
  | opened {x : Exchange ρ} (attained : Attained config x) : Attained config x.opened
  | managed {α : Type} {x : Exchange ρ} {m : Action (Exchange ρ) α} (attained : Attained config x)
    (managed : Managed m) : Attained config (m x).2

theorem Attained.sound {config : Config} (attained : Attained config x) : x.Sound := by
  induction attained with
  | start cap host => exact sound_fresh (.empty cap) config host
  | opened _ ih => exact ih.opened
  | managed _ managed ih => exact managed.sound ih

theorem Hosted.map {α β : Type} {m : Action (Exchange ρ) α} (hosted : Hosted m) (f : α → β) :
    Hosted (f <$> m) :=
  hosted.bind fun a => .pure (f a)

theorem hosted_run (p : Program) : Hosted (p.run (Carrier.direct (ρ := ρ))) := by
  induction p with
  | done => exact .pure ()
  | fail fault => exact .fail fault
  | request r =>
    cases r with
    | create => exact (Hosted.create ..).map _
    | deposit => exact (Hosted.deposit ..).map _
    | withdraw => exact (Hosted.withdraw ..).map _
    | trade => exact (Hosted.trade ..).map _
    | call => exact (Hosted.call ..).map _
    | callOrFail => exact (Hosted.callOrFail ..).map _
    | settle => exact (Hosted.settle ..).map _
  | distribute => exact (Hosted.distribute ..).map _
  | distributeOrFail => exact (Hosted.distributeOrFail ..).map _
  | seq _ _ ih ih' => exact ih.bind fun _ => ih'
  | attempt _ ih => exact ih.attempt.map _
  | unit _ ih => exact ih.collect.map _

end Later

/-- A deposit is undone by withdrawing the same at once: the withdrawal succeeds and answers the
position of before, and pools, positions and balances are as they were. The caller's position stays
recorded if anything was deposited, though it may be empty; but whatever a host has done from then
on ends as it would have without the deposit and the withdrawal, pays out the same and tells the
same events. -/
theorem deposit_undone {config : Config} (attained : Attained config x)
    (done : depositOf .direct caller pair baseAmount quoteAmount x = (.ok position, y)) :
    ∃ account market base quote z,
      Accepted x.config caller pair baseAmount quoteAmount account market base quote ∧
      withdrawOf .direct caller pair baseAmount quoteAmount y =
        (.ok (x.store.position market account), z) ∧
      x.Restores account market base quote z ∧
      (∀ m a, z.store.position m a = x.store.position m a) ∧
      ∀ {α : Type} (later : Action (Exchange ρ) α), Managed later →
        (later z).1 = (later x).1 ∧ z.since (later z).2 = x.since (later x).2 ∧
          (later z).2.store.pools = (later x).2.store.pools ∧
          (∀ m a, (later z).2.store.position m a = (later x).2.store.position m a) ∧
          (later z).2.ledger.balances = (later x).2.ledger.balances := by
  have sound := attained.sound
  obtain ⟨account, market, base, quote, accepted, deposited⟩ := depositOf_eq_ok done
  obtain ⟨z, withdrawn, restores⟩ :=
    withdraw_of_deposit sound (callerOf_eq_ok_iff.1 accepted.caller).2
    (valid_of_marketOfPair accepted.market) deposited
  have config : y.config = x.config :=
    ((allOrNothing_depositOf Carrier.plain_direct.journaled caller pair baseAmount
      quoteAmount).orderly x sound).elim
      fun _ follows => by rw [done] at follows; exact follows.config
  refine ⟨account, market, base, quote, z, accepted, ?_, restores, position_of_restores restores,
    fun later managed => ?_⟩
  · rw [← config] at accepted
    rw [withdrawOf_of_accepted .direct accepted, withdrawn]
  · obtain ⟨p, places, places', alike⟩ := restores.alike sound
    obtain ⟨same, after⟩ := managed.indifferent p x z alike
    exact ⟨same, since_eq_of_alike places places' after, after.pools, after.position,
      after.balances⟩

def stocking : Action (Exchange Unit) Unit := do
  ledgerPlace.change (Ledger.mint 0 "alice" 10)
  ledgerPlace.change (Ledger.mint 1 "alice" 20)
  ledgerPlace.change (Ledger.mint 0 "bob" 9)
  (Program.request (.create (.str "alice") (.int 0) (.int 1) (.int 10) (.int 10))).run .direct

theorem managed_stocking : Managed stocking :=
  .bind (.mint ..) fun _ => .bind (.mint ..) fun _ => .bind (.mint ..) fun _ =>
    .hosted (hosted_run _)

def supplied : Exchange Unit :=
  (stocking (fresh narrow { cap := some (.int 255) } ())).2

theorem supplied_holds :
    supplied.store.position? ⟨0, 1⟩ "bob" = none ∧ supplied.balance 0 "bob" = 9 ∧
      (depositOf .direct (.str "bob") (.tuple [.int 0, .int 1]) (.int 5) (.int 0)
        supplied).1.toOption = some ⟨5, 0⟩ := by
  decide +kernel

theorem supplied_undone :
    let pair : Value := .tuple [.int 0, .int 1]
    supplied.store.position? ⟨0, 1⟩ "bob" = none ∧
      ∃ y z, depositOf .direct (.str "bob") pair (.int 5) (.int 0) supplied = (.ok ⟨5, 0⟩, y) ∧
        withdrawOf .direct (.str "bob") pair (.int 5) (.int 0) y = (.ok .empty, z) ∧
        z.store.position? ⟨0, 1⟩ "bob" = some .empty ∧ z.store.pools = supplied.store.pools ∧
        z.balance 0 "bob" = 9 := by
  intro pair
  have attained : Attained narrow supplied :=
    (Attained.start (some (.int 255)) ()).managed managed_stocking
  obtain ⟨unrecorded, funds, answer⟩ := supplied_holds
  generalize supplied = x at attained unrecorded funds answer ⊢
  have done : depositOf .direct (.str "bob") pair (.int 5) (.int 0) x = (.ok ⟨5, 0⟩, _) :=
    Prod.ext (Except.toOption_eq_some_iff.1 answer) rfl
  obtain ⟨account, market, base, quote, z, accepted, withdrawn, restores, -⟩ :=
    deposit_undone attained done
  obtain rfl : "bob" = account := by simpa using (callerOf_eq_ok_iff.1 accepted.caller).1
  obtain rfl : 5 = base := Int.ofNat.inj (Value.int.inj (amountOf_eq_ok_iff.1 accepted.base).1)
  obtain rfl : (⟨0, 1⟩ : Market) = market := Except.ok.inj accepted.market
  have empty : x.store.position ⟨0, 1⟩ "bob" = .empty := by
    rw [Store.position, unrecorded, Option.getD_none]
  rw [empty] at withdrawn
  refine ⟨unrecorded, _, z, done, withdrawn, ?_, restores.pools, ?_⟩
  · rw [restores.position?, empty]
    simp
  · show z.ledger.balances.get "bob" 0 = 9
    rw [restores.balances]
    exact funds

end Exchange

end LiquidityPools
