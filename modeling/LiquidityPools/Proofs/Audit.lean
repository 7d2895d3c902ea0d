import LiquidityPools.Proofs.Conservation

/-!
The log as an audit trail. Whoever knows what the ledger held before the exchange was opened, and
then reads the published events in order, knows the reserves of every market, the position of every
provider and the balance of every account. What was rolled back is not in the log, and what was
committed is in it once, with the amounts that were written.
-/

namespace LiquidityPools

def Pool.reserves (p : Pool) : Int × Int := (p.baseReserve, p.quoteReserve)

def Position.contributed (p : Position) : Int × Int := (p.base, p.quote)

/-- The reserves and the positions that a reader of events knows of. -/
structure Trail where
  reserves : Table Market (Int × Int) := ∅
  positions : Table (Market × Account) (Int × Int) := ∅

namespace Trail

def reservesOf (t : Trail) (market : Market) : Int × Int := (t.reserves.get? market).getD 0

def position (t : Trail) (market : Market) (account : Account) : Int × Int :=
  (t.positions.get? (market, account)).getD 0

def addReserves (market : Market) (change : Int × Int) (t : Trail) : Trail :=
  { t with reserves := t.reserves.insert market (t.reservesOf market + change) }

def addPosition (market : Market) (account : Account) (change : Int × Int) (t : Trail) : Trail :=
  { t with
    positions := t.positions.insert (market, account) (t.position market account + change) }

/-- A trade adds to the spent side what is left after the fee. Rewards come out of the fees. -/
def read (t : Trail) (e : Event) : Trail :=
  let both := (e.amount "base_amount", e.amount "quote_amount")
  match e.kind with
  | .poolCreated =>
    ⟨t.reserves.insert e.market both, t.positions.insert (e.market, e.account) both⟩
  | .liquidityAdded => (t.addReserves e.market both).addPosition e.market e.account both
  | .liquidityWithdrawn => (t.addReserves e.market (-both)).addPosition e.market e.account (-both)
  | .bought =>
    t.addReserves e.market (-e.amount "base_received", e.amount "quote_spent" - e.amount "fee")
  | .sold =>
    t.addReserves e.market (e.amount "base_spent" - e.amount "fee", -e.amount "quote_received")
  | .providerRewarded => t

def ofLog (log : List Event) : Trail := log.foldl read {}

end Trail

def Event.movements (c : Config) (e : Event) : List Movement :=
  let told (name : String) : Nat := (e.amount name).toNat
  let net (name : String) : Nat := (e.amount name - e.amount "fee").toNat
  let ⟨base, quote⟩ := e.market
  match e.kind with
  | .poolCreated | .liquidityAdded =>
    [⟨base, e.account, c.poolAccount, told "base_amount"⟩,
      ⟨quote, e.account, c.poolAccount, told "quote_amount"⟩]
  | .liquidityWithdrawn =>
    [⟨base, c.poolAccount, e.account, told "base_amount"⟩,
      ⟨quote, c.poolAccount, e.account, told "quote_amount"⟩]
  | .bought =>
    [⟨quote, e.account, c.poolAccount, net "quote_spent"⟩,
      ⟨quote, e.account, c.feeAccount, told "fee"⟩,
      ⟨base, c.poolAccount, e.account, told "base_received"⟩]
  | .sold =>
    [⟨base, e.account, c.poolAccount, net "base_spent"⟩,
      ⟨base, e.account, c.feeAccount, told "fee"⟩,
      ⟨quote, c.poolAccount, e.account, told "quote_received"⟩]
  | .providerRewarded =>
    [⟨base, c.feeAccount, e.account, told "base_amount"⟩,
      ⟨quote, c.feeAccount, e.account, told "quote_amount"⟩]

theorem Exchange.reserves_afterTrade (pool : Pool) (quote : Quote) (collected : Nat) :
    (afterTrade pool quote collected).reserves =
      ((quote.newBaseReserve : Int), (quote.newQuoteReserve : Int)) := by
  unfold afterTrade
  cases quote.side <;> rfl

namespace Trail

/-- The trail tells of every pool and every position what the store has. -/
structure Tells (t : Trail) (s : Store) : Prop where
  reserves : ∀ market, t.reserves.get? market = (s.pool? market).map Pool.reserves
  positions : ∀ market account, t.position market account = (s.position market account).contributed

namespace Tells

variable {t : Trail} {s : Store} {market : Market} {account : Account} {pool : Pool}
  {change : Int × Int}

theorem nothing : ({} : Trail).Tells {} := ⟨fun _ => rfl, fun _ _ => rfl⟩

theorem bare (told : t.Tells s) : t.Tells s.bare := ⟨told.reserves, told.positions⟩

theorem addReserves (told : t.Tells s) (held : s.pool? market = some pool) {f : Pool → Pool}
    (changed : (f pool).reserves = pool.reserves + change) :
    (t.addReserves market change).Tells (s.revise market f) where
  reserves other := by
    have known : t.reservesOf market = pool.reserves := by
      simp [reservesOf, told.reserves, held]
    rw [Store.revise_of_pool? held, Store.pool?_writePool, Trail.addReserves, Table.get?_insert,
      known, ← changed, told.reserves]
    split <;> rfl
  positions other account := by
    rw [Store.position_revise]
    exact told.positions other account

theorem revise (told : t.Tells s) {f : Pool → Pool} (same : ∀ p, (f p).reserves = p.reserves) :
    t.Tells (s.revise market f) where
  reserves other := by
    rw [Store.pool?_revise, told.reserves]
    split
    next here =>
      subst here
      rw [Option.map_map]
      exact congrArg (Option.map · (s.pool? other)) (funext fun p => (same p).symm)
    next => rfl
  positions other account := by
    rw [Store.position_revise]
    exact told.positions other account

theorem addPosition (told : t.Tells s) {position : Position}
    (changed : position.contributed = (s.position market account).contributed + change) :
    (t.addPosition market account change).Tells (s.keepPosition market account position) where
  reserves other := by
    rw [Store.pool?_keepPosition]
    exact told.reserves other
  positions other provider := by
    have known := told.positions market account
    rw [Store.position_keepPosition, Trail.addPosition, Trail.position, Table.get?_insert, known,
      ← changed]
    split
    · rfl
    · exact told.positions other provider

theorem opened (told : t.Tells s) (base quote : Nat) :
    (⟨t.reserves.insert market (base, quote), t.positions.insert (market, account) (base, quote)⟩ :
        Trail).Tells
      ((s.writePool market { baseReserve := base, quoteReserve := quote } none).putPosition
        market account ⟨base, quote⟩) where
  reserves other := by
    show (t.reserves.insert market _).get? other =
      ((s.writePool market _ none).pool? other).map Pool.reserves
    rw [Table.get?_insert, Store.pool?_writePool, told.reserves]
    split <;> rfl
  positions other provider := by
    rw [Store.position_putPosition, Trail.position, Table.get?_insert]
    split
    · rfl
    · exact told.positions other provider

end Tells

theorem foldl_payouts (t : Trail) (payouts : List Payout) :
    (payouts.map Payout.event).foldl read t = t := by
  induction payouts with
  | nil => rfl
  | cons p rest ih =>
    rw [List.map_cons, List.foldl_cons]
    exact ih

end Trail

namespace Books

variable {c : Config} {b b' : Books} {deal : Deal} {deals : List Deal} {t : Trail}

theorem Takes.tells (taken : b.Takes c deal b') (told : t.Tells b.store) :
    (deal.events.foldl Trail.read t).Tells b'.store := by
  rw [taken.store]
  have allowed := taken.allowed
  cases deal with
  | opened caller market base quote => exact (told.opened base quote).bare
  | added caller market base quote =>
    obtain ⟨-, -, pool, held, -⟩ := allowed
    exact ((told.addReserves held rfl).addPosition (by rw [Store.position_revise]; rfl)).bare
  | withdrawn caller market base quote =>
    obtain ⟨-, -, pool, held, ⟨baseEnough, quoteEnough⟩, baseCovered, quoteCovered⟩ := allowed
    refine ((told.addReserves held ?_).addPosition ?_).bare
    · exact Prod.ext (Int.ofNat_sub baseEnough) (Int.ofNat_sub quoteEnough)
    · rw [Store.position_revise]
      exact Prod.ext (Int.ofNat_sub baseCovered) (Int.ofNat_sub quoteCovered)
  | traded caller market amount quote =>
    obtain ⟨-, -, -, pool, held, priced, -⟩ := allowed
    obtain ⟨-, spent, grows, shrinks⟩ := Quote.balanced_of_price priced
    have final := Exchange.reserves_afterTrade pool quote
    simp only [Deal.events, Exchange.traded, Deal.write, List.foldl_cons, List.foldl_nil]
    cases side : quote.side with
    | buy =>
      simp only [side, Side.orient] at grows shrinks
      have base : (quote.newBaseReserve : Int) = pool.baseReserve + -quote.receiveAmount := by omega
      have other : (quote.newQuoteReserve : Int) = pool.quoteReserve + (amount - quote.fee) := by
        omega
      exact (told.addReserves held ((final _).trans (Prod.ext base other))).bare
    | sell =>
      simp only [side, Side.orient] at grows shrinks
      have base : (quote.newBaseReserve : Int) = pool.baseReserve + (amount - quote.fee) := by omega
      have other : (quote.newQuoteReserve : Int) = pool.quoteReserve + -quote.receiveAmount := by
        omega
      exact (told.addReserves held ((final _).trans (Prod.ext base other))).bare
  | settled market payouts dust =>
    rw [Deal.events, Trail.foldl_payouts]
    exact (told.revise (f := Pool.withoutFees) fun _ => rfl).bare

theorem Takes.movements (taken : b.Takes c deal b') :
    deal.events.flatMap (Event.movements c) = deal.movements c := by
  have allowed := taken.allowed
  cases deal with
  | opened caller market base quote => rfl
  | added caller market base quote => rfl
  | withdrawn caller market base quote => rfl
  | traded caller market amount quote =>
    obtain ⟨-, -, -, pool, held, priced, -⟩ := allowed
    have spent := (Quote.balanced_of_price priced).spent
    have net : ((amount : Int) - quote.fee).toNat = quote.netAmount := by omega
    simp only [Deal.events, Exchange.traded, Deal.movements, List.flatMap_singleton]
    cases side : quote.side with
    | buy =>
      exact congrArg (fun n => (⟨market.quote, caller, c.poolAccount, n⟩ : Movement) :: _) net
    | sell =>
      exact congrArg (fun n => (⟨market.base, caller, c.poolAccount, n⟩ : Movement) :: _) net
  | settled market payouts dust =>
    simp only [Deal.events, Deal.movements, List.flatMap_map]
    rfl

theorem Run.tells (run : b.Run c deals b') (told : t.Tells b.store) :
    ((deals.flatMap Deal.events).foldl Trail.read t).Tells b'.store ∧
      b.balances.moveAll ((deals.flatMap Deal.events).flatMap (Event.movements c)) =
        .ok b'.balances := by
  induction run generalizing t with
  | nil b => exact ⟨told, rfl⟩
  | cons taken rest ih =>
    obtain ⟨knows, moved⟩ := ih (taken.tells told)
    rw [List.flatMap_cons, List.foldl_append, List.flatMap_append, taken.movements]
    exact ⟨knows, Balances.moveAll_append taken.moved moved⟩

end Books

namespace Exchange

variable {ρ : Type} {carrier : Carrier ρ}

/-- Whatever a host does with an exchange that has no pool and no event yet, its log tells of all
that the exchange then holds: read in order from nothing, it gives the reserves of every market and
every position, and the movements it tells of lead from the first balances to the last. -/
theorem log_tells_all (plain : carrier.Plain) {x : Exchange ρ} (sound : x.Sound)
    (unused : x.store = {}) (silent : x.log = []) (idle : x.openUnits = []) (p : Program) :
    let y := (p.run carrier x).2
    (∀ market, (Trail.ofLog y.log).reserves.get? market =
        (y.store.pool? market).map Pool.reserves) ∧
      (∀ market account, (Trail.ofLog y.log).position market account =
        (y.store.position market account).contributed) ∧
      ∀ asset account, (y.balance asset account : Int) =
        x.balance asset account +
          Balances.changeOf (y.log.flatMap (Event.movements x.config)) asset account := by
  intro y
  obtain ⟨deals, leads, -⟩ := p.commits plain sound
  have log : y.log = deals.flatMap Deal.events := by
    rw [leads.follows.log, log_deliver, if_pos idle, silent, List.nil_append]
  have start : ({} : Trail).Tells x.books.store := by
    show ({} : Trail).Tells x.store.bare
    rw [unused]
    exact Trail.Tells.nothing.bare
  obtain ⟨told, moved⟩ := leads.run.tells start
  obtain ⟨-, -, changes⟩ := Balances.moveAll_effect sound.ledger moved
  rw [log]
  exact ⟨told.reserves, told.positions, fun asset account => changes account asset⟩

def dayWithRegret : Program :=
  .seq tradingDay (.attempt (.unit (.seq
    (.request (.deposit (.str "alice") (.tuple [.int 1, .int 2]) (.int 500) (.int 600)))
    (.fail (.marketMissing ⟨1, 2⟩)))))

theorem log_after_dayWithRegret :
    (Trail.ofLog (dayWithRegret.run .direct morning).2.log).reserves.get? ⟨1, 2⟩ =
        some (43865, 56993) ∧
      (Trail.ofLog (dayWithRegret.run .direct morning).2.log).position ⟨1, 2⟩ "alice" =
        (50000, 50000) := by
  obtain ⟨reserves, positions, -⟩ := log_tells_all Carrier.plain_direct sound_morning rfl rfl rfl
    dayWithRegret
  rw [reserves, positions]
  decide +kernel

end Exchange

end LiquidityPools
