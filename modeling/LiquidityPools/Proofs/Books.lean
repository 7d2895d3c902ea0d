import LiquidityPools.Payout
import LiquidityPools.Exchange.Trade
import LiquidityPools.Proofs.Ledger
import LiquidityPools.Proofs.Store

/-!
The books of an exchange and the deals that are entered in them. The books are what is left of an
exchange without its journals, units and log: pools, positions and balances. A deal is one committed
change of the books: a pool opened, liquidity added or withdrawn, a trade, a settlement. It says
which movements it makes, what it writes to the store, when it is allowed, and which events tell of
it.
-/

namespace LiquidityPools

structure Books where
  store : Store
  balances : Balances

def Exchange.books {ρ : Type} (x : Exchange ρ) : Books := ⟨x.store.bare, x.ledger.balances⟩

namespace Balances

def move (m : Movement) (b : Balances) : Except Fault Balances :=
  (Ledger.move m.asset m.source m.dest m.amount ⟨b, []⟩).map (·.balances)

def moveAll (movements : List Movement) (b : Balances) : Except Fault Balances :=
  movements.foldlM (fun b m => b.move m) b

variable {b c d : Balances} {m : Movement} {first second : List Movement}

theorem move_of_ledger {l k : Ledger} {asset : Asset} {source dest : Account} {amount : Nat}
    (moved : l.move asset source dest amount = .ok k) :
    l.balances.move ⟨asset, source, dest, amount⟩ = .ok k.balances := by
  unfold move
  unfold Ledger.move at moved ⊢
  split at moved
  next idle =>
    cases moved
    rw [if_pos idle]
    rfl
  next moving =>
    rw [if_neg moving]
    split at moved
    next => cases moved
    next enough =>
      have enough : ¬ Ledger.balance ⟨l.balances, []⟩ asset source < amount := enough
      rw [if_neg enough]
      simp only
      split at moved
      next => cases moved
      next credited credit =>
        split at moved
        next => cases moved
        next debited debit =>
          cases moved
          rfl

theorem moveAll_cons (moved : b.move m = .ok c) (rest : c.moveAll second = .ok d) :
    b.moveAll (m :: second) = .ok d := by
  rw [moveAll, List.foldlM_cons, moved]
  exact rest

theorem moveAll_append (moved : b.moveAll first = .ok c) (rest : c.moveAll second = .ok d) :
    b.moveAll (first ++ second) = .ok d := by
  rw [moveAll, List.foldlM_append]
  unfold moveAll at moved rest
  rw [moved]
  exact rest

theorem moveAll_effect (sound : b.Sound) (moved : b.moveAll first = .ok c) :
    c.Sound ∧ (∀ x, c.total x = b.total x) ∧
      ∀ a x, (c.get a x : Int) = b.get a x + changeOf first x a := by
  induction first generalizing b with
  | nil =>
    cases moved
    exact ⟨sound, fun _ => rfl, fun a x => by simp [changeOf]⟩
  | cons m rest ih =>
    rw [moveAll, List.foldlM_cons] at moved
    cases step : b.move m with
    | error fault => simp [step, bind, Except.bind] at moved
    | ok d =>
      rw [step] at moved
      unfold move at step
      cases done : Ledger.move m.asset m.source m.dest m.amount ⟨b, []⟩ with
      | error fault => simp [done, Except.map] at step
      | ok l =>
        rw [done] at step
        cases step
        obtain ⟨soundLedger, -, totals, changes⟩ := Ledger.move_effect (l := ⟨b, []⟩) sound done
        obtain ⟨soundAfter, totals', changes'⟩ := ih soundLedger moved
        refine ⟨soundAfter, fun x => (totals' x).trans (totals x), fun a x => ?_⟩
        have first : (l.balances.get a x : Int) = b.get a x + m.change x a := changes x a
        rw [changes' a x, first, changeOf, changeOf, List.map_cons, List.sum_cons]
        omega

end Balances

namespace Payout

/-- What stands against a provider's contribution on each side: the reserve, or all contributions if
they come to more. -/
def weightsOf (pool : Pool) (positions : List (Account × Position)) : Nat × Nat :=
  (max pool.baseReserve (positions.map (·.2.base)).sum,
    max pool.quoteReserve (positions.map (·.2.quote)).sum)

/-- What the providers are due: the floored share of the fees on each side; nothing for one whose
shares both come to zero. -/
def due (market : Market) (pool : Pool) (weights : Nat × Nat)
    (positions : List (Account × Position)) :
    List Payout :=
  positions.filterMap fun (provider, position) =>
    let base := pool.baseFees * position.base / weights.1
    let quote := pool.quoteFees * position.quote / weights.2
    if base = 0 ∧ quote = 0 then none else some ⟨market, provider, base, quote⟩

def totalBase (payouts : List Payout) : Nat := (payouts.map (·.base)).sum

def totalQuote (payouts : List Payout) : Nat := (payouts.map (·.quote)).sum

def event (p : Payout) : Event :=
  .liquidity .providerRewarded p.provider p.market p.base p.quote

def movements (c : Config) (p : Payout) : List Movement :=
  [⟨p.market.base, c.feeAccount, p.provider, p.base⟩,
    ⟨p.market.quote, c.feeAccount, p.provider, p.quote⟩]

end Payout

inductive Deal where
  | opened (caller : Account) (market : Market) (base quote : Nat)
  | added (caller : Account) (market : Market) (base quote : Nat)
  | withdrawn (caller : Account) (market : Market) (base quote : Nat)
  | traded (caller : Account) (market : Market) (amount : Nat) (quote : Quote)
  /-- `dust` is what stays in the fee account on each side. -/
  | settled (market : Market) (payouts : List Payout) (dust : Nat × Nat)

namespace Store

def revise (market : Market) (f : Pool → Pool) (s : Store) : Store :=
  match s.pool? market with
  | some pool => s.writePool market (f pool) (some pool)
  | none => s

/-- Records a position; an empty one only over a recorded one. -/
def keepPosition (market : Market) (provider : Account) (position : Position) (s : Store) : Store :=
  if position.isEmpty && !s.hasPosition market provider then s
  else s.putPosition market provider position

end Store

def Config.MayCall (c : Config) (caller : Account) : Prop := caller ≠ "" ∧ c.IsOutside caller

namespace Deal

open Exchange (spentFees afterTrade)

def market : Deal → Market
  | .opened _ market _ _ | .added _ market _ _ | .withdrawn _ market _ _ | .traded _ market _ _
  | .settled market _ _ => market

def events : Deal → List Event
  | .opened caller market base quote => [.liquidity .poolCreated caller market base quote]
  | .added caller market base quote => [.liquidity .liquidityAdded caller market base quote]
  | .withdrawn caller market base quote => [.liquidity .liquidityWithdrawn caller market base quote]
  | .traded caller market amount quote => [Exchange.traded caller market amount quote]
  | .settled _ payouts _ => payouts.map Payout.event

def movements (c : Config) : Deal → List Movement
  | .opened caller market base quote | .added caller market base quote =>
    [⟨market.base, caller, c.poolAccount, base⟩, ⟨market.quote, caller, c.poolAccount, quote⟩]
  | .withdrawn caller market base quote =>
    [⟨market.base, c.poolAccount, caller, base⟩, ⟨market.quote, c.poolAccount, caller, quote⟩]
  | .traded caller market _ quote =>
    let (spent, received) := quote.side.orient market.base market.quote
    [⟨spent, caller, c.poolAccount, quote.netAmount⟩, ⟨spent, caller, c.feeAccount, quote.fee⟩,
      ⟨received, c.poolAccount, caller, quote.receiveAmount⟩]
  | .settled _ payouts _ => payouts.flatMap (Payout.movements c)

def write (s : Store) : Deal → Store
  | .opened caller market base quote =>
    ((s.writePool market { baseReserve := base, quoteReserve := quote } none).putPosition
      market caller ⟨base, quote⟩).bare
  | .added caller market base quote =>
    let held := s.position market caller
    ((s.revise market fun pool =>
        { pool with
          baseReserve := pool.baseReserve + base,
          quoteReserve := pool.quoteReserve + quote }).keepPosition
      market caller ⟨held.base + base, held.quote + quote⟩).bare
  | .withdrawn caller market base quote =>
    let held := s.position market caller
    ((s.revise market fun pool =>
        { pool with
          baseReserve := pool.baseReserve - base,
          quoteReserve := pool.quoteReserve - quote }).keepPosition
      market caller ⟨held.base - base, held.quote - quote⟩).bare
  | .traded _ market _ quote =>
    (s.revise market fun pool =>
      afterTrade pool quote (spentFees quote.side pool + quote.fee)).bare
  | .settled market _ _ => (s.revise market Pool.withoutFees).bare

def Allowed (c : Config) (s : Store) : Deal → Prop
  | .opened caller market base quote =>
    c.MayCall caller ∧ market.Valid ∧ (0 < base ∧ base ≤ c.cap) ∧ (0 < quote ∧ quote ≤ c.cap) ∧
      s.pool? market = none
  | .added caller market base quote =>
    c.MayCall caller ∧ market.Valid ∧ ∃ pool, s.pool? market = some pool ∧
      (pool.baseReserve + base ≤ c.cap ∧ pool.quoteReserve + quote ≤ c.cap) ∧
      ((s.position market caller).base + base ≤ c.cap ∧
        (s.position market caller).quote + quote ≤ c.cap)
  | .withdrawn caller market base quote =>
    c.MayCall caller ∧ market.Valid ∧ ∃ pool, s.pool? market = some pool ∧
      (base ≤ pool.baseReserve ∧ quote ≤ pool.quoteReserve) ∧
      (base ≤ (s.position market caller).base ∧ quote ≤ (s.position market caller).quote)
  | .traded caller market amount quote =>
    c.MayCall caller ∧ market.Valid ∧ amount ≤ c.cap ∧ ∃ pool, s.pool? market = some pool ∧
      Quote.price c.cap pool quote.side amount c.feeRate = .ok quote ∧
      spentFees quote.side pool + quote.fee ≤ c.cap
  | .settled market payouts dust =>
    market.Valid ∧ ∃ pool, s.pool? market = some pool ∧
      payouts = Payout.due market pool (Payout.weightsOf pool (s.positionsOf market))
        (s.positionsOf market) ∧
      Payout.totalBase payouts + dust.1 = pool.baseFees ∧
      Payout.totalQuote payouts + dust.2 = pool.quoteFees

end Deal

namespace Books

structure Takes (c : Config) (b : Books) (deal : Deal) (b' : Books) : Prop where
  allowed : deal.Allowed c b.store
  store : b'.store = deal.write b.store
  moved : b.balances.moveAll (deal.movements c) = .ok b'.balances

inductive Run (c : Config) : Books → List Deal → Books → Prop
  | nil (b : Books) : Run c b [] b
  | cons {b b' b'' : Books} {deal : Deal} {deals : List Deal} (first : b.Takes c deal b')
    (rest : Run c b' deals b'') : Run c b (deal :: deals) b''

variable {c : Config} {b b' b'' : Books} {deals more : List Deal}

theorem Run.append (first : b.Run c deals b') (second : b'.Run c more b'') :
    b.Run c (deals ++ more) b'' := by
  induction first with
  | nil b => exact second
  | cons taken rest ih => exact .cons taken (ih second)

theorem Run.one {deal : Deal} (taken : b.Takes c deal b') : b.Run c [deal] b' :=
  .cons taken (.nil b')

theorem Run.taken {deal : Deal} (run : b.Run c [deal] b') : b.Takes c deal b' := by
  cases run with
  | cons taken rest =>
    cases rest
    exact taken

theorem Run.keeps {P : Books → Prop} (step : ∀ b deal b', P b → b.Takes c deal b' → P b')
    (run : b.Run c deals b') (start : P b) : P b' := by
  induction run with
  | nil b => exact start
  | cons taken rest ih => exact ih (step _ _ _ start taken)

end Books

end LiquidityPools
