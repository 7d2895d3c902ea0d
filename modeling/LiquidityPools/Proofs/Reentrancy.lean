import LiquidityPools.Proofs.Conservation

/-!
Carriers that call back. While an update of a market waits for a transfer, its carrier may run other
operations on the same market. The update does not see what they do: it commits the pool that it
read before, changed by what it reports. So it keeps what its callbacks changed only if they left
the pool as it was found; otherwise the reserves and the counters miss what was lost, while the
ledger has it.
-/

namespace LiquidityPools

@[ext] structure Amounts where
  base : Int
  quote : Int
  baseFees : Int
  quoteFees : Int

namespace Amounts

instance : Add Amounts :=
  ⟨fun a b =>
    ⟨a.base + b.base, a.quote + b.quote, a.baseFees + b.baseFees, a.quoteFees + b.quoteFees⟩⟩

instance : Sub Amounts :=
  ⟨fun a b =>
    ⟨a.base - b.base, a.quote - b.quote, a.baseFees - b.baseFees, a.quoteFees - b.quoteFees⟩⟩

theorem add_def (a b : Amounts) :
    a + b = ⟨a.base + b.base, a.quote + b.quote, a.baseFees + b.baseFees,
      a.quoteFees + b.quoteFees⟩ := rfl

theorem sub_def (a b : Amounts) :
    a - b = ⟨a.base - b.base, a.quote - b.quote, a.baseFees - b.baseFees,
      a.quoteFees - b.quoteFees⟩ := rfl

theorem eq_add_sub_add_iff {a b c : Amounts} : a + c = a + (b - a) + c ↔ b = a := by
  simp only [add_def, sub_def, Amounts.ext_iff]
  omega

end Amounts

def Pool.amounts (p : Pool) : Amounts := ⟨p.baseReserve, p.quoteReserve, p.baseFees, p.quoteFees⟩

theorem Pool.amounts_inj {p q : Pool} : p.amounts = q.amounts ↔ p = q := by
  cases p
  cases q
  simp only [amounts, Amounts.mk.injEq, Pool.mk.injEq, Int.ofNat_inj]

namespace Deal

def poolChange : Deal → Amounts
  | .opened _ _ base quote | .added _ _ base quote => ⟨base, quote, 0, 0⟩
  | .withdrawn _ _ base quote => ⟨-base, -quote, 0, 0⟩
  | .traded _ _ _ quote =>
    match quote.side with
    | .buy => ⟨-quote.receiveAmount, quote.netAmount, 0, quote.fee⟩
    | .sell => ⟨quote.netAmount, -quote.receiveAmount, quote.fee, 0⟩
  | .settled _ payouts dust =>
    ⟨0, 0, -(Payout.totalBase payouts + dust.1), -(Payout.totalQuote payouts + dust.2)⟩

theorem spread_poolChange (deal : Deal) (asset : Asset) :
    deal.market.spread asset deal.poolChange.base deal.poolChange.quote = deal.reserveChange asset ∧
      deal.market.spread asset deal.poolChange.baseFees deal.poolChange.quoteFees =
        deal.charged asset - deal.paid asset - deal.dust asset := by
  have none (m : Market) : m.spread asset 0 0 = 0 := by simp [Market.spread]
  cases deal with
  | opened caller market base quote | added caller market base quote
  | withdrawn caller market base quote => exact ⟨rfl, none market⟩
  | traded caller market amount quote =>
    simp only [poolChange, reserveChange, charged, paid, dust, Int.sub_zero]
    cases quote.side with
    | buy => exact ⟨rfl, rfl⟩
    | sell => exact ⟨rfl, rfl⟩
  | settled market payouts dust =>
    refine ⟨none market, ?_⟩
    simp only [Deal.market, poolChange, charged, paid, Deal.dust]
    unfold Market.spread
    split <;> split <;> omega

end Deal

variable {ρ : Type}

section Transfers

variable (carrier : Carrier ρ)

def Payout.payEach : List Payout → Action (Exchange ρ) Unit
  | [] => pure ()
  | p :: rest => do
    let config ← Action.read (·.config)
    carrier.transfer p.market.base config.feeAccount p.provider p.base
    carrier.transfer p.market.quote config.feeAccount p.provider p.quote
    Exchange.emit p.event
    payEach rest

/-- Has the carrier make the transfers of a deal, with whatever it does meanwhile. -/
def Deal.carryOut : Deal → Action (Exchange ρ) Unit
  | .settled _ payouts _ => Payout.payEach carrier payouts
  | deal => do
    let config ← Action.read (·.config)
    Exchange.sendAll carrier (deal.movements config)

end Transfers

namespace Exchange

inductive Update where
  | deposit (caller : Account) (market : Market) (base quote : Nat)
  | withdraw (caller : Account) (market : Market) (base quote : Nat)
  | trade (side : Side) (caller : Account) (market : Market) (amount least : Nat)
  | settle (market : Market)

namespace Update

def market : Update → Market
  | .deposit _ market _ _ | .withdraw _ market _ _ | .trade _ _ market _ _
  | .settle market => market

def run (carrier : Carrier ρ) : Update → Action (Exchange ρ) Deal
  | .deposit caller market base quote =>
    (fun _ => .added caller market base quote) <$> Exchange.deposit carrier caller market base quote
  | .withdraw caller market base quote =>
    (fun _ => .withdrawn caller market base quote) <$>
      Exchange.withdraw carrier caller market base quote
  | .trade side caller market amount least =>
    (.traded caller market amount ·) <$> Exchange.trade carrier side caller market amount least
  | .settle market =>
    (fun paid => .settled market paid.1 paid.2) <$> Exchange.settle carrier market

end Update

/-- An update, run inside its unit from `x` to `y`, read the pool `found`, met the pool `left` when
its transfers had been made, at `z`, and wrote `final` over it. -/
structure Overwrites (carrier : Carrier ρ) (x : Exchange ρ) (deal : Deal) (found left final : Pool)
    (z y : Exchange ρ) : Prop where
  reads : x.store.pool? deal.market = some found
  carried : deal.carryOut carrier x = (.ok (), z)
  meets : z.store.pool? deal.market = some left
  writes : y.store.pools = z.store.pools.insert deal.market final
  balances : y.ledger.balances = z.ledger.balances
  change : final.amounts = found.amounts + deal.poolChange

section Bodies

variable {α β : Type} {carrier : Carrier ρ} {x y : Exchange ρ} {caller : Account} {market : Market}
  {base quote : Nat}

theorem Replaces.overwrites {deal : Deal} {found left final : Pool} {put : Store → Store}
    {z : Exchange ρ} (made : Replaces carrier x deal found left final put z y)
    (sends : deal.carryOut carrier x = sendAll carrier (deal.movements x.config) x)
    (keeps : ∀ s, (put s).pools = s.pools)
    (change : final.amounts = found.amounts + deal.poolChange) :
    Overwrites carrier x deal found left final z y where
  reads := made.reads
  carried := sends.trans made.sent
  meets := made.meets
  writes := by
    rw [made.writes]
    exact keeps _
  balances := by rw [made.writes]; rfl
  change := change

theorem overwrites_addLiquidity {position : Position}
    (done : addLiquidity carrier caller market base quote x = (.ok position, y)) :
    ∃ found left final z,
      Overwrites carrier x (.added caller market base quote) found left final z y := by
  obtain ⟨-, -, found, left, z, -, made⟩ := addLiquidity_eq_ok done
  refine ⟨found, left, _, z, made.overwrites rfl (fun s => Store.pools_keepPosition) ?_⟩
  simp only [Pool.amounts, Deal.poolChange, Amounts.add_def, Int.natCast_add, Int.add_zero]

theorem overwrites_removeLiquidity {position : Position}
    (done : removeLiquidity carrier caller market base quote x = (.ok position, y)) :
    ∃ found left final z,
      Overwrites carrier x (.withdrawn caller market base quote) found left final z y := by
  obtain ⟨-, -, found, left, z, ⟨baseEnough, quoteEnough⟩, made⟩ := removeLiquidity_eq_ok done
  refine ⟨found, left, _, z, made.overwrites rfl (fun s => Store.pools_keepPosition) ?_⟩
  simp only [Pool.amounts, Deal.poolChange, Amounts.add_def, Int.ofNat_sub baseEnough,
    Int.ofNat_sub quoteEnough, Int.sub_eq_add_neg, Int.add_zero]

theorem overwrites_swap {side : Side} {amount least : Nat} {quote : Quote}
    (done : swap carrier side caller market amount least x = (.ok quote, y)) :
    ∃ found left final z,
      Overwrites carrier x (.traded caller market amount quote) found left final z y := by
  obtain ⟨found, left, z, price, -, -, -, made⟩ := swap_eq_ok done
  refine ⟨found, left, _, z, made.overwrites rfl (fun s => rfl) ?_⟩
  obtain ⟨-, -, grows, shrinks⟩ := Quote.balanced_of_price price
  simp only [Pool.amounts, Deal.poolChange, Amounts.add_def, afterTrade, spentFees, Amounts.ext_iff]
  cases side : quote.side with
  | buy =>
    simp only [side, Side.orient] at grows shrinks ⊢
    exact ⟨by omega, by omega, by omega, by omega⟩
  | sell =>
    simp only [side, Side.orient] at grows shrinks ⊢
    exact ⟨by omega, by omega, by omega, by omega⟩

theorem payEach_append {first second : List Payout} {z : Exchange ρ}
    (earlier : Payout.payEach carrier first x = (.ok (), y))
    (later : Payout.payEach carrier second y = (.ok (), z)) :
    Payout.payEach carrier (first ++ second) x = (.ok (), z) := by
  induction first generalizing x with
  | nil =>
    cases earlier
    exact later
  | cons p rest ih =>
    rw [Payout.payEach, Action.bind_read] at earlier
    obtain ⟨⟨⟩, u, movedBase, earlier⟩ := Action.bind_eq_ok earlier
    obtain ⟨⟨⟩, v, movedQuote, earlier⟩ := Action.bind_eq_ok earlier
    rw [Action.bind_ok (emit_eq ..)] at earlier
    rw [List.cons_append, Payout.payEach, Action.bind_read, Action.bind_ok movedBase,
      Action.bind_ok movedQuote, Action.bind_ok (emit_eq ..)]
    exact ih earlier

theorem payProvider_eq_ok {pool : Pool} {weights : Nat × Nat} {provider : Account}
    {position : Position} {tally after : Payout.Tally}
    (done : payProvider carrier market pool weights provider position tally x = (.ok after, y)) :
    ∃ paid, after = tally.plus paid ∧ Payout.payEach carrier paid x = (.ok (), y) := by
  rw [payProvider, Action.bind_read] at done
  obtain ⟨base, -, done⟩ := Action.bind_lift_eq_ok done
  obtain ⟨quote, -, done⟩ := Action.bind_lift_eq_ok done
  split at done
  next nothing =>
    cases done
    exact ⟨[], (Payout.Tally.plus_nil _).symm, rfl⟩
  next something =>
    obtain ⟨⟨⟩, u, movedBase, done⟩ := Action.bind_eq_ok done
    obtain ⟨⟨⟩, v, movedQuote, done⟩ := Action.bind_eq_ok done
    obtain ⟨paidBase, baseSum, done⟩ := Action.bind_lift_eq_ok done
    obtain ⟨paidQuote, quoteSum, done⟩ := Action.bind_lift_eq_ok done
    rw [Action.bind_ok (emit_eq ..)] at done
    cases done
    obtain ⟨rfl, -⟩ := Amount.add_eq_ok_iff.1 baseSum
    obtain ⟨rfl, -⟩ := Amount.add_eq_ok_iff.1 quoteSum
    refine ⟨[⟨market, provider, base, quote⟩], rfl, ?_⟩
    rw [Payout.payEach, Action.bind_read, Action.bind_ok movedBase, Action.bind_ok movedQuote,
      Action.bind_ok (emit_eq ..)]
    rfl

theorem payProviders_eq_ok {pool : Pool} {weights : Nat × Nat} {bound : Nat} {walk : Walk}
    {tally after : Payout.Tally}
    (done : payProviders carrier market pool weights bound walk tally x = (.ok after, y)) :
    ∃ paid, after = tally.plus paid ∧ Payout.payEach carrier paid x = (.ok (), y) := by
  induction bound generalizing walk tally x with
  | zero =>
    cases done
    exact ⟨[], (Payout.Tally.plus_nil _).symm, rfl⟩
  | succ bound ih =>
    rw [payProviders, Action.bind_read] at done
    cases ahead : walk.next x.store with
    | none =>
      rw [ahead] at done
      cases done
      exact ⟨[], (Payout.Tally.plus_nil _).symm, rfl⟩
    | some item =>
      rw [ahead] at done
      obtain ⟨tally', u, paidOne, done⟩ := Action.bind_eq_ok done
      obtain ⟨first, rfl, earlier⟩ := payProvider_eq_ok paidOne
      obtain ⟨rest, rfl, later⟩ := ih done
      exact ⟨first ++ rest, (Payout.Tally.plus_append ..).symm, payEach_append earlier later⟩

theorem overwrites_payOut {paid : List Payout × Nat × Nat}
    (done : payOut carrier market x = (.ok paid, y)) :
    ∃ found left final z,
      Overwrites carrier x (.settled market paid.1 paid.2) found left final z y := by
  obtain ⟨checked, valid, paying⟩ := Action.bind_lift_eq_ok done
  obtain ⟨rfl, -⟩ := marketOf_self valid
  obtain ⟨pool, held, paying⟩ := requirePool_bind_eq_ok paying
  rw [Action.bind_read, Action.bind_read] at paying
  obtain ⟨sums, -, paying⟩ := Action.bind_lift_eq_ok paying
  obtain ⟨tally, z, walked, paying⟩ := Action.bind_eq_ok paying
  obtain ⟨baseDust, baseLeft, paying⟩ := Action.bind_lift_eq_ok paying
  obtain ⟨quoteDust, quoteLeft, paying⟩ := Action.bind_lift_eq_ok paying
  obtain ⟨left, met, paying⟩ := putPool_bind_eq_ok paying
  cases paying
  obtain ⟨payouts, rfl, carried⟩ := payProviders_eq_ok walked
  rw [Payout.Tally.empty_plus] at baseLeft quoteLeft
  obtain ⟨baseCovered, rfl, -⟩ := Amount.sub_eq_ok_iff.1 baseLeft
  obtain ⟨quoteCovered, rfl, -⟩ := Amount.sub_eq_ok_iff.1 quoteLeft
  rw [Payout.Tally.empty_plus]
  refine ⟨pool, left, _, z, held, carried, met, rfl, rfl, ?_⟩
  simp only [Pool.amounts, Pool.withoutFees, Deal.poolChange, Amounts.add_def, Amounts.ext_iff]
  simp only at baseCovered quoteCovered
  exact ⟨by omega, by omega, by omega, by omega⟩

end Bodies

section Lost

variable {carrier : Carrier ρ} {x y z : Exchange ρ} {deal : Deal} {found left final : Pool}

theorem Overwrites.reserves_fees (wrote : Overwrites carrier x deal found left final z y)
    (asset : Asset) :
    y.store.reserves asset = z.store.reserves asset + deal.reserveChange asset -
        deal.market.spread asset (left.amounts - found.amounts).base
          (left.amounts - found.amounts).quote ∧
      y.store.fees asset =
        z.store.fees asset + (deal.charged asset - deal.paid asset - deal.dust asset) -
          deal.market.spread asset (left.amounts - found.amounts).baseFees
            (left.amounts - found.amounts).quoteFees := by
  obtain ⟨reserveChange, feeChange⟩ := deal.spread_poolChange asset
  have held : z.store.pools.get? deal.market = some left := wrote.meets
  obtain ⟨base, quote, baseFees, quoteFees⟩ := Amounts.ext_iff.1 wrote.change
  simp only [Pool.amounts, Amounts.add_def] at base quote baseFees quoteFees
  rw [← reserveChange, ← feeChange]
  unfold Store.reserves Store.fees
  rw [wrote.writes, Table.sum_insert, Table.sum_insert, Table.weight_of_get? held,
    Table.weight_of_get? held, base, quote, baseFees, quoteFees]
  simp only [Amounts.sub_def, Pool.amounts]
  unfold Market.spread
  constructor
  · split <;> split <;> omega
  · split <;> split <;> omega

theorem overwrites_unit {α : Type} {body : Action (Exchange ρ) α} {a : α}
    (ended : unit body x = (.ok a, y))
    (wrote : ∀ w, body x.opened = (.ok a, w) →
      ∃ found left final z, Overwrites carrier x.opened deal found left final z w) :
    ∃ found left final z, Overwrites carrier x.opened deal found left final z y := by
  obtain ⟨w, ran, pools, balances⟩ := unit_committed ended
  obtain ⟨found, left, final, z, wrote⟩ := wrote w ran
  exact ⟨found, left, final, z, { wrote with
    writes := pools.trans wrote.writes
    balances := balances.trans wrote.balances }⟩

theorem Update.overwrites {u : Update} (done : u.run carrier x = (.ok deal, y)) :
    deal.market = u.market ∧
      ∃ found left final z, Overwrites carrier x.opened deal found left final z y := by
  cases u with
  | deposit caller market base quote =>
    obtain ⟨position, ended, rfl⟩ := Action.map_eq_ok done
    exact ⟨rfl, overwrites_unit ended fun _ => overwrites_addLiquidity⟩
  | withdraw caller market base quote =>
    obtain ⟨position, ended, rfl⟩ := Action.map_eq_ok done
    exact ⟨rfl, overwrites_unit ended fun _ => overwrites_removeLiquidity⟩
  | trade side caller market amount least =>
    obtain ⟨quote, ended, rfl⟩ := Action.map_eq_ok done
    exact ⟨rfl, overwrites_unit ended fun _ => overwrites_swap⟩
  | settle market =>
    obtain ⟨paid, ended, rfl⟩ := Action.map_eq_ok done
    exact ⟨rfl, overwrites_unit ended fun _ => overwrites_payOut⟩

/-- A committed update changes the pool that it found, by what it reports, whatever the carrier did
to the market during the transfers. So both changes are in the pool exactly if the carrier left it
as it was found. The ledger is left as it is at the last transfer; the reserves and the counters
then miss what was lost. -/
theorem callbacks_kept_iff {u : Update} (done : u.run carrier x = (.ok deal, y)) :
    ∃ found left final z,
      x.store.pool? u.market = some found ∧
      deal.carryOut carrier x.opened = (.ok (), z) ∧ z.store.pool? u.market = some left ∧
      y.store.pool? u.market = some final ∧
      final.amounts = found.amounts + deal.poolChange ∧
      (final.amounts = found.amounts + (left.amounts - found.amounts) + deal.poolChange ↔
        left = found) ∧
      ∀ asset,
        (∀ account, y.balance asset account = z.balance asset account) ∧
        y.store.reserves asset = z.store.reserves asset + deal.reserveChange asset -
          u.market.spread asset (left.amounts - found.amounts).base
            (left.amounts - found.amounts).quote ∧
        y.store.fees asset =
          z.store.fees asset + (deal.charged asset - deal.paid asset - deal.dust asset) -
            u.market.spread asset (left.amounts - found.amounts).baseFees
              (left.amounts - found.amounts).quoteFees := by
  obtain ⟨same, found, left, final, z, wrote⟩ := u.overwrites done
  rw [← same]
  refine ⟨found, left, final, z, wrote.reads, wrote.carried, wrote.meets, ?_, wrote.change, ?_, ?_⟩
  · rw [Store.pool?, wrote.writes, Table.get?_insert_self]
  · rw [wrote.change, Amounts.eq_add_sub_add_iff, Pool.amounts_inj]
  · intro asset
    refine ⟨fun account => ?_, wrote.reserves_fees asset⟩
    rw [balance, balance, Ledger.balance, Ledger.balance, wrote.balances]

def callingOnce (callback : Action (Exchange Bool) Unit) : Carrier Bool where
  transfer asset source dest amount := do
    if !(← Action.read (·.host)) then
      Action.modify fun x => { x with host := true }
      callback
    Carrier.direct.transfer asset source dest amount

def innerDeposit : Action (Exchange Bool) Unit :=
  (fun _ => ()) <$> deposit .direct "alice" ⟨1, 2⟩ 500 700

def outerDeposit : Update := .deposit "alice" ⟨1, 2⟩ 1000 1000

def opening : Exchange Bool :=
  (create .direct "alice" ⟨1, 2⟩ 50000 50000 (fresh .usual Program.aliceBalances false)).2

/-- The callback's deposit of 500 and 700 does not show in the pool that is committed. -/
theorem innerDeposit_lost :
    ∃ deal y z, outerDeposit.run (callingOnce innerDeposit) opening = (.ok deal, y) ∧
      deal.carryOut (callingOnce innerDeposit) opening.opened = (.ok (), z) ∧
      z.store.pool? ⟨1, 2⟩ = some ⟨50500, 50700, 0, 0⟩ ∧
      y.store.pool? ⟨1, 2⟩ = some ⟨51000, 51000, 0, 0⟩ := by
  let meeting :=
    (Deal.added "alice" ⟨1, 2⟩ 1000 1000).carryOut (callingOnce innerDeposit) opening.opened
  have before : opening.store.pool? ⟨1, 2⟩ = some ⟨50000, 50000, 0, 0⟩ := by decide +kernel
  have meanwhile : meeting.2.store.pool? ⟨1, 2⟩ = some ⟨50500, 50700, 0, 0⟩ := by decide +kernel
  have ends : (outerDeposit.run (callingOnce innerDeposit) opening).1.isOk = true := by
    decide +kernel
  cases run : outerDeposit.run (callingOnce innerDeposit) opening with
  | mk outcome y =>
    rw [run] at ends
    cases outcome with
    | error fault => cases ends
    | ok deal =>
      obtain ⟨found, left, final, z, reads, carried, meets, wrote, change, -⟩ :=
        callbacks_kept_iff run
      obtain ⟨_, -, rfl⟩ := Action.map_eq_ok run
      have after : meeting = (.ok (), z) := carried
      rw [after] at meanwhile
      cases before.symm.trans reads
      have sum : final = ⟨51000, 51000, 0, 0⟩ := Pool.amounts_inj.1 change
      rw [sum] at wrote
      exact ⟨_, y, z, rfl, carried, meanwhile, wrote⟩

end Lost

end Exchange

end LiquidityPools
