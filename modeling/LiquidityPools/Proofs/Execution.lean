import LiquidityPools.Proofs.Clearing
import LiquidityPools.Proofs.Orders
import LiquidityPools.Proofs.Pricing

/-!
Trades execute quotes. What a trade ends with is settled by checks in a fixed order: the pool, what
the caller holds, the price, the least, and the room on the counter of fees. A trade that passes
them all answers with the very quote of the pool, and does what the quote says and nothing else: no
transfer fails any more, because the pool account holds at least the reserve that the quote pays
from.
-/

namespace LiquidityPools

variable {ρ : Type}

def Quote.gain (c : Config) (caller : Account) (market : Market) (quote : Quote) (asset : Asset)
    (account : Account) : Int :=
  let (spent, received) := quote.side.orient market.base market.quote
  if asset = spent then
    (if account = c.poolAccount then (quote.netAmount : Int) else 0) +
      (if account = c.feeAccount then (quote.fee : Int) else 0) -
        if account = caller then (quote.grossAmount : Int) else 0
  else if asset = received then
    (if account = caller then (quote.receiveAmount : Int) else 0) -
      if account = c.poolAccount then (quote.receiveAmount : Int) else 0
  else 0

def Pool.executed (pool : Pool) (quote : Quote) : Pool where
  baseReserve := quote.newBaseReserve
  quoteReserve := quote.newQuoteReserve
  baseFees := if quote.side = .sell then pool.baseFees + quote.fee else pool.baseFees
  quoteFees := if quote.side = .buy then pool.quoteFees + quote.fee else pool.quoteFees

namespace Exchange

/-- `y` comes from `x` by executing a quote for this amount on this side of a pool, and by nothing
else. -/
structure Executes (x : Exchange ρ) (side : Side) (caller : Account) (market : Market)
    (amount : Nat) (quote : Quote) (y : Exchange ρ) : Prop where
  onSide : quote.side = side
  asked : quote.grossAmount = amount
  splits : quote.netAmount + quote.fee = amount
  pool : ∃ pool, x.store.pool? market = some pool ∧
    y.store.pool? market = some (pool.executed quote)
  otherPools : ∀ other, other ≠ market → y.store.pool? other = x.store.pool? other
  position? : ∀ m account, y.store.position? m account = x.store.position? m account
  positionsOf : ∀ m, y.store.positionsOf m = x.store.positionsOf m
  balance : ∀ asset account,
    (y.balance asset account : Int) =
      x.balance asset account + quote.gain x.config caller market asset account
  told : x.Follows [traded caller market amount quote] y

end Exchange

namespace Quote

variable {c : Config} {caller : Account} {market : Market} {quote : Quote}

theorem changeOf_traded (apart : market.base ≠ market.quote)
    (spent : quote.netAmount + quote.fee = quote.grossAmount) (asset : Asset) (account : Account) :
    Balances.changeOf ((Deal.traded caller market quote.grossAmount quote).movements c)
      asset account =
      quote.gain c caller market asset account := by
  have apart' : (quote.side.orient market.base market.quote).2 ≠
      (quote.side.orient market.base market.quote).1 := by
    cases quote.side with
    | buy => exact apart
    | sell => exact apart.symm
  simp only [Deal.movements, Balances.changeOf_cons, Balances.changeOf_nil, Movement.change, gain]
  generalize (quote.side.orient market.base market.quote).1 = spentAsset,
    (quote.side.orient market.base market.quote).2 = received at apart' ⊢
  by_cases onSpent : asset = spentAsset
  · subst onSpent
    simp only [apart'.symm, true_and, false_and, if_true, if_false]
    split_ifs <;> omega
  · simp only [onSpent, false_and, if_false]
    by_cases onReceived : asset = received
    · simp only [onReceived, true_and, if_true]
      omega
    · simp only [onReceived, false_and, if_false]
      rfl

end Quote

namespace Exchange

variable {config : Config} {x y : Exchange ρ} {side : Side} {account : Account} {market : Market}
  {amount least : Nat} {quote : Quote}

theorem afterTrade_eq_executed (pool : Pool) (quote : Quote) :
    afterTrade pool quote (spentFees quote.side pool + quote.fee) = pool.executed quote := by
  unfold afterTrade spentFees Pool.executed
  cases quote.side <;> rfl

theorem executes_of_leads (sound : x.Sound)
    (leads : x.Leads [.traded account market amount quote] y) :
    x.Executes quote.side account market amount quote y := by
  have taken := leads.run.taken
  obtain ⟨-, valid, -, pool, held, priced, -⟩ := taken.allowed
  have splits := (Quote.balanced_of_price priced).spent
  have asked : quote.grossAmount = amount := (Quote.priced_of_price priced).asked
  have store : y.store.bare = ((x.store.bare.revise market fun pool =>
    afterTrade pool quote (spentFees quote.side pool + quote.fee)).bare) := taken.store
  have pools (other : Market) : y.store.pool? other =
      if other = market then some (pool.executed quote) else x.store.pool? other := by
    show y.store.bare.pool? other = _
    rw [store]
    refine (Store.pool?_revise _ market other _).trans ?_
    have held : x.store.bare.pool? market = some pool := held
    rw [held, Option.map_some, afterTrade_eq_executed]
    rfl
  exact
    { onSide := rfl
      asked
      splits
      pool := ⟨pool, held, by rw [pools, if_pos rfl]⟩
      otherPools := fun other apart => by rw [pools, if_neg apart]
      position? := fun m a => by
        show y.store.bare.position? m a = _
        rw [store]
        exact Store.position?_revise _ market m _ a
      positionsOf := fun m => by
        show y.store.bare.positionsOf m = _
        rw [store]
        exact Store.positionsOf_revise _ market m _
      balance := fun asset a => by
        have moved := taken.moved
        rw [← asked] at moved
        rw [← Quote.changeOf_traded valid.2.2 (splits.trans asked.symm)]
        exact (Balances.moveAll_effect sound.ledger moved).2.2 a asset
      told := leads.follows }

theorem tradeOf_of_checked (carrier : Carrier ρ) {caller pair amountGiven leastGiven : Value}
    (called : callerOf x.config caller = .ok account) (named : marketOfPair pair = .ok market)
    (spends : amountOf x.config (spentName side) amountGiven = .ok amount)
    (asks : amountOf x.config "min_receive" leastGiven = .ok least) :
    tradeOf carrier side caller pair amountGiven leastGiven x =
      trade carrier side account market amount least x := by
  rw [tradeOf, Action.bind_read, called, Action.bind_lift, named, Action.bind_lift, spends,
    Action.bind_lift, asks, Action.bind_lift]

theorem mapError_of_foreseen {α : Type} {m : Action (Exchange ρ) α} {spec : Except Fault.Kind α}
    (foreseen : Foreseen m x spec) : (m x).1.mapError Fault.kind = spec := by
  rcases foreseen with ⟨fault, y, failed, rfl⟩ | ⟨a, y, done, rfl⟩
  · rw [failed, Except.mapError]
  · rw [done, Except.mapError]

theorem trade_of_solvent (solvent : x.Solvent) (may : x.config.MayCall account)
    (valid : market.Valid) (fits : amount ≤ x.config.cap) (side : Side) (least : Nat) :
    let ended := trade .direct side account market amount least x
    ended.1.mapError Fault.kind = x.books.trading x.config account market side amount least ∧
      (∀ quote, ended.1 = .ok quote → x.Executes side account market amount quote ended.2) ∧
      ∀ fault, ended.1 = .error fault → ∃ host, ended.2 = { x with host } := by
  have sound := solvent.sound
  have journaled :
      Journaled (swap .direct side account market amount least : Action (Exchange ρ) Quote) :=
    journaled_swap Carrier.plain_direct.journaled _ _ _ _ _
  refine ⟨mapError_of_foreseen (.unit journaled sound (foreseen_swap solvent.opened)),
    fun quote done => ?_,
    fun fault failed => (allOrNothing_unit journaled).whole x sound fault _ (Prod.ext failed rfl)⟩
  have whole : trade .direct side account market amount least x =
      (.ok quote, (trade .direct side account market amount least x).2) := Prod.ext done rfl
  obtain ⟨_, _, finished, -⟩ := unit_eq_ok journaled sound whole
  obtain ⟨-, -, -, -, rfl, -⟩ := swap_eq_ok finished
  exact executes_of_leads sound (leads_unit journaled sound
    (fun y body => enters_swap Carrier.plain_direct sound.opened may valid fits body) whole)

theorem trading_books :
    x.books.trading x.config account market side amount least =
      match x.store.pool? market with
      | none => .error .marketMissing
      | some pool =>
        if x.balance (side.orient market.base market.quote).1 account < amount then
          .error .notEnoughBalance
        else
          match Quote.priceOf x.config.cap pool (.side side) (.int amount) x.config.feeRate with
          | .error _ => .error .arithmetic
          | .ok quote =>
            if quote.receiveAmount < least then .error .slippage
            else if x.config.cap < spentFees side pool + quote.fee then .error .arithmetic
            else .ok quote := by
  unfold Books.trading
  change (match x.store.pool? market with | none => _ | some pool => _) = _
  cases x.store.pool? market with
  | none => rfl
  | some pool =>
    refine if_congr Iff.rfl rfl ?_
    rw [Quote.priceOf_int]
    cases Quote.price x.config.cap pool side amount x.config.feeRate with
    | error fault => rfl
    | ok quote =>
      refine if_congr Iff.rfl rfl ?_
      rw [← ite_not]
      exact if_congr Nat.not_le rfl rfl

/-- A trade with valid arguments ends with the first of its checks that fails, and then changes
nothing; if none does, it answers with the quote and executes it. -/
theorem trade_executes_quote (entrusted : Program.Entrusted config x)
    {caller pair amountGiven leastGiven : Value}
    (called : callerOf config caller = .ok account) (named : marketOfPair pair = .ok market)
    (spends : amountOf config (spentName side) amountGiven = .ok amount)
    (asks : amountOf config "min_receive" leastGiven = .ok least) :
    let ended := tradeOf .direct side caller pair amountGiven leastGiven x
    (ended.1.mapError Fault.kind =
      match x.store.pool? market with
      | none => .error .marketMissing
      | some pool =>
        if x.balance (side.orient market.base market.quote).1 account < amount then
          .error .notEnoughBalance
        else
          match Quote.priceOf config.cap pool (.side side) (.int amount) config.feeRate with
          | .error _ => .error .arithmetic
          | .ok quote =>
            if quote.receiveAmount < least then .error .slippage
            else if config.cap < spentFees side pool + quote.fee then .error .arithmetic
            else .ok quote) ∧
      (∀ quote, ended.1 = .ok quote → x.Executes side account market amount quote ended.2) ∧
      ∀ fault, ended.1 = .error fault → ∃ host, ended.2 = { x with host } := by
  obtain ⟨solvent, rfl, -⟩ := solvent_of_entrusted entrusted
  rw [tradeOf_of_checked .direct called named spends asks]
  have ended :=
    trade_of_solvent solvent (callerOf_eq_ok_iff.1 called).2 (valid_of_marketOfPair named)
    (le_cap_of_amountOf spends) side least
  exact ⟨ended.1.trans trading_books, ended.2⟩

def stocked : Exchange Unit :=
  ((Program.request (.create (.str "alice") (.int 0) (.int 1) (.int 10) (.int 10))).run .direct
    narrowMorning).2

theorem stocked_holds :
    stocked.store.pool? ⟨0, 1⟩ = some ⟨10, 10, 0, 0⟩ ∧ stocked.balance 1 "alice" = 10 := by
  decide +kernel

theorem stocked_executes :
    let four : Quote := ⟨.buy, 10, 5, 5, 4, 6, 15, 100, 90⟩
    ∃ y, tradeOf .direct .buy (.str "alice") (.tuple [.int 0, .int 1]) (.int 10) (.int 4) stocked =
      (.ok four, y) ∧ stocked.Executes .buy "alice" ⟨0, 1⟩ 10 four y := by
  intro four
  have entrusted : Program.Entrusted narrow stocked := entrusted_narrowMorning.run _
  have called : callerOf narrow (.str "alice") = .ok "alice" := rfl
  have named : marketOfPair (.tuple [.int 0, .int 1]) = .ok ⟨0, 1⟩ := rfl
  have spends : amountOf narrow (spentName .buy) (.int 10) = .ok 10 := rfl
  have asks : amountOf narrow "min_receive" (.int 4) = .ok 4 := rfl
  obtain ⟨held, funds⟩ := stocked_holds
  obtain ⟨verdict, executes, -⟩ := trade_executes_quote entrusted called named spends asks
  generalize tradeOf .direct .buy (.str "alice") (.tuple [.int 0, .int 1]) (.int 10) (.int 4)
    stocked = ended
    at verdict executes ⊢
  rw [held] at verdict
  have passes := verdict.trans (if_neg (Nat.not_lt.2 (Nat.le_of_eq funds.symm)))
  have done : ended.1 = .ok four := Except.mapError_eq_ok_iff.1 passes
  exact ⟨ended.2, Prod.ext done rfl, executes four done⟩

end Exchange

end LiquidityPools
