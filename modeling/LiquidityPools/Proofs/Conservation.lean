import LiquidityPools.Proofs.History

/-!
The custody accounts balance. Each deal changes the pool account by what it adds to the reserves,
and the fee account by what it adds to the fee counters and leaves as dust. Hence no program over a
plain carrier changes what the pool account holds beyond the reserves, or what the fee account holds
beyond the counters and the reported dust, as long as no position belongs to a custody account.
-/

namespace LiquidityPools

def Market.spread (m : Market) (asset : Asset) (base quote : Int) : Int :=
  (if asset = m.base then base else 0) + if asset = m.quote then quote else 0

theorem Market.spread_add (m : Market) (asset : Asset) (base quote base' quote' : Int) :
    m.spread asset (base + base') (quote + quote') =
      m.spread asset base quote + m.spread asset base' quote' := by
  unfold spread
  split <;> split <;> omega

namespace Store

def reserves (s : Store) (asset : Asset) : Int :=
  s.pools.sum fun m pool => m.spread asset pool.baseReserve pool.quoteReserve

def fees (s : Store) (asset : Asset) : Int :=
  s.pools.sum fun m pool => m.spread asset pool.baseFees pool.quoteFees

def Outside (c : Config) (s : Store) : Prop :=
  ∀ market provider, s.hasPosition market provider = true → c.IsOutside provider

variable {s : Store} {market : Market} {provider : Account} {position : Position} {pool : Pool}

@[simp] theorem pools_bare : s.bare.pools = s.pools := rfl

@[simp] theorem pools_putPosition : (s.putPosition market provider position).pools = s.pools := rfl

@[simp] theorem pools_keepPosition : (s.keepPosition market provider position).pools = s.pools := by
  unfold keepPosition
  split <;> rfl

theorem sum_revise (f : Market → Pool → Int) (held : s.pool? market = some pool) (g : Pool → Pool) :
    (s.revise market g).pools.sum f = s.pools.sum f + f market (g pool) - f market pool := by
  rw [revise_of_pool? held, writePool, Table.sum_insert, Table.weight_of_get? held]

end Store

namespace Deal

def reserveChange (asset : Asset) : Deal → Int
  | .opened _ m base quote | .added _ m base quote => m.spread asset base quote
  | .withdrawn _ m base quote => m.spread asset (-base) (-quote)
  | .traded _ m _ quote =>
    match quote.side with
    | .buy => m.spread asset (-quote.receiveAmount) quote.netAmount
    | .sell => m.spread asset quote.netAmount (-quote.receiveAmount)
  | .settled .. => 0

def charged (asset : Asset) : Deal → Int
  | .traded _ m _ quote =>
    match quote.side with
    | .buy => m.spread asset 0 quote.fee
    | .sell => m.spread asset quote.fee 0
  | _ => 0

def paid (asset : Asset) : Deal → Int
  | .settled m payouts _ => m.spread asset (Payout.totalBase payouts) (Payout.totalQuote payouts)
  | _ => 0

def dust (asset : Asset) : Deal → Int
  | .settled m _ dust => m.spread asset dust.1 dust.2
  | _ => 0

end Deal

variable {c : Config} {b b' : Books} {deal : Deal} {asset : Asset}

theorem Books.Takes.reserves (taken : b.Takes c deal b') (asset : Asset) :
    b'.store.reserves asset = b.store.reserves asset + deal.reserveChange asset := by
  rw [taken.store]
  have allowed := taken.allowed
  unfold Store.reserves
  cases deal with
  | opened caller market base quote =>
    obtain ⟨-, -, -, -, fresh⟩ := allowed
    simp only [Deal.write, Store.pools_bare, Store.pools_putPosition, Store.writePool,
      Table.sum_insert, Deal.reserveChange]
    rw [Table.weight_of_fresh fresh, Int.sub_zero]
  | added caller market base quote =>
    obtain ⟨-, -, pool, held, -⟩ := allowed
    simp only [Deal.write, Store.pools_bare, Store.pools_keepPosition, Store.sum_revise _ held,
      Deal.reserveChange, Int.natCast_add, Market.spread_add]
    omega
  | withdrawn caller market base quote =>
    obtain ⟨-, -, pool, held, ⟨baseEnough, quoteEnough⟩, -⟩ := allowed
    simp only [Deal.write, Store.pools_bare, Store.pools_keepPosition, Store.sum_revise _ held,
      Deal.reserveChange, Int.ofNat_sub baseEnough, Int.ofNat_sub quoteEnough, Int.sub_eq_add_neg,
      Market.spread_add]
    omega
  | traded caller market amount quote =>
    obtain ⟨-, -, -, pool, held, priced, -⟩ := allowed
    obtain ⟨-, -, grows, shrinks⟩ := Quote.balanced_of_price priced
    simp only [Deal.write, Store.pools_bare, Store.sum_revise _ held, Deal.reserveChange,
      Exchange.afterTrade]
    cases side : quote.side with
    | buy =>
      simp only [side, Side.orient] at grows shrinks ⊢
      unfold Market.spread
      split <;> split <;> omega
    | sell =>
      simp only [side, Side.orient] at grows shrinks ⊢
      unfold Market.spread
      split <;> split <;> omega
  | settled market payouts dust =>
    obtain ⟨-, pool, held, -⟩ := allowed
    simp only [Deal.write, Store.pools_bare, Store.sum_revise _ held, Deal.reserveChange,
      Pool.withoutFees]
    omega

theorem Books.Takes.fees (taken : b.Takes c deal b') (asset : Asset) :
    b'.store.fees asset =
      b.store.fees asset + deal.charged asset - deal.paid asset - deal.dust asset := by
  rw [taken.store]
  have allowed := taken.allowed
  unfold Store.fees
  cases deal with
  | opened caller market base quote =>
    obtain ⟨-, -, -, -, fresh⟩ := allowed
    simp only [Deal.write, Store.pools_bare, Store.pools_putPosition, Store.writePool,
      Table.sum_insert, Deal.charged, Deal.paid, Deal.dust]
    rw [Table.weight_of_fresh fresh]
    unfold Market.spread
    split <;> split <;> omega
  | added caller market base quote =>
    obtain ⟨-, -, pool, held, -⟩ := allowed
    simp only [Deal.write, Store.pools_bare, Store.pools_keepPosition, Store.sum_revise _ held,
      Deal.charged, Deal.paid, Deal.dust]
    omega
  | withdrawn caller market base quote =>
    obtain ⟨-, -, pool, held, -⟩ := allowed
    simp only [Deal.write, Store.pools_bare, Store.pools_keepPosition, Store.sum_revise _ held,
      Deal.charged, Deal.paid, Deal.dust]
    omega
  | traded caller market amount quote =>
    obtain ⟨-, -, -, pool, held, -⟩ := allowed
    simp only [Deal.write, Store.pools_bare, Store.sum_revise _ held, Deal.charged, Deal.paid,
      Deal.dust, Exchange.afterTrade, Exchange.spentFees]
    cases side : quote.side with
    | buy =>
      simp only [Side.orient]
      unfold Market.spread
      split <;> split <;> omega
    | sell =>
      simp only [Side.orient]
      unfold Market.spread
      split <;> split <;> omega
  | settled market payouts dust =>
    obtain ⟨-, pool, held, -, baseFees, quoteFees⟩ := allowed
    simp only [Deal.write, Store.pools_bare, Store.sum_revise _ held, Deal.charged, Deal.paid,
      Deal.dust, Pool.withoutFees]
    unfold Market.spread
    split <;> split <;> omega

section Movements

variable {asset : Asset} {account : Account}

theorem Payout.mem_due {market : Market} {pool : Pool} {weights : Nat × Nat}
    {positions : List (Account × Position)} {p : Payout}
    (member : p ∈ due market pool weights positions) :
    p.market = market ∧ ∃ position, (p.provider, position) ∈ positions := by
  obtain ⟨⟨provider, position⟩, listed, made⟩ := List.mem_filterMap.1 member
  dsimp only at made
  split at made
  · cases made
  · cases made
    exact ⟨rfl, position, listed⟩

theorem Store.hasPosition_of_mem {s : Store} (coherent : s.Coherent) {market : Market}
    {provider : Account} {position : Position}
    (listed : (provider, position) ∈ s.positionsOf market) :
    s.hasPosition market provider = true := by
  refine (coherent.mem_iff market provider).1 ?_
  obtain ⟨account, known, same⟩ := List.mem_map.1 listed
  cases same
  exact known

theorem Movement.change_of_ne_asset {held : Asset} (apart : asset ≠ held) (source dest : Account)
    (amount : Nat) (account : Account) :
    Movement.change ⟨held, source, dest, amount⟩ asset account = 0 := by
  simp [Movement.change, apart]

theorem Movement.neg_le_change (held : Asset) (source dest : Account) (amount : Nat) (asset : Asset)
    (account : Account) :
    -(amount : Int) ≤ Movement.change ⟨held, source, dest, amount⟩ asset account := by
  simp only [Movement.change]
  split_ifs <;> omega

theorem Movement.change_of_ne_source {source : Account} (apart : account ≠ source) (held : Asset)
    (dest : Account) (amount : Nat) :
    Movement.change ⟨held, source, dest, amount⟩ asset account =
      if account = dest then if asset = held then (amount : Int) else 0 else 0 := by
  simp only [Movement.change, apart, and_false, if_false, Int.sub_zero, ← ite_and]
  exact if_congr and_comm rfl rfl

theorem Movement.change_of_ne_dest {dest : Account} (apart : account ≠ dest) (held : Asset)
    (source : Account) (amount : Nat) :
    Movement.change ⟨held, source, dest, amount⟩ asset account =
      if account = source then if asset = held then -(amount : Int) else 0 else 0 := by
  simp only [Movement.change, apart, and_false, if_false, Int.zero_sub, neg_ite, Int.neg_zero,
    ← ite_and]
  exact if_congr and_comm rfl rfl

theorem Market.changeOf_in (m : Market) {source : Account} (apart : account ≠ source)
    (dest : Account) (base quote : Nat) :
    Balances.changeOf [⟨m.base, source, dest, base⟩, ⟨m.quote, source, dest, quote⟩] asset account =
      if account = dest then m.spread asset base quote else 0 := by
  simp only [Balances.changeOf_cons, Balances.changeOf_nil, Movement.change_of_ne_source apart,
    Market.spread]
  split_ifs <;> simp_all

theorem Market.changeOf_out (m : Market) {dest : Account} (apart : account ≠ dest)
    (source : Account) (base quote : Nat) :
    Balances.changeOf [⟨m.base, source, dest, base⟩, ⟨m.quote, source, dest, quote⟩] asset account =
      if account = source then m.spread asset (-base) (-quote) else 0 := by
  simp only [Balances.changeOf_cons, Balances.changeOf_nil, Movement.change_of_ne_dest apart,
    Market.spread]
  split_ifs <;> simp_all

theorem Config.IsOutside.ne {c : Config} {other : Account} (outside : c.IsOutside other)
    (custody : ¬ c.IsOutside account) : account ≠ other :=
  fun same => custody (same ▸ outside)

theorem changeOf_payouts {c : Config} (custody : ¬ c.IsOutside account) {market : Market}
    {payouts : List Payout} (about : ∀ p ∈ payouts, p.market = market ∧ c.IsOutside p.provider) :
    Balances.changeOf (payouts.flatMap (Payout.movements c)) asset account =
      if account = c.feeAccount then
        -market.spread asset (Payout.totalBase payouts) (Payout.totalQuote payouts) else 0 := by
  induction payouts with
  | nil => simp [Market.spread, Payout.totalBase, Payout.totalQuote]
  | cons p rest ih =>
    have others := ih fun q member => about q (List.mem_cons_of_mem _ member)
    obtain ⟨rfl, outside⟩ := about p List.mem_cons_self
    have base : Payout.totalBase (p :: rest) = p.base + Payout.totalBase rest := List.sum_cons
    have quote : Payout.totalQuote (p :: rest) = p.quote + Payout.totalQuote rest := List.sum_cons
    rw [List.flatMap_cons, Balances.changeOf_append, others, Payout.movements,
      p.market.changeOf_out (outside.ne custody), base, quote]
    unfold Market.spread
    split
    · split <;> split <;> omega
    · rfl

/-- What a deal moves into and out of a custody account, if no position is its own: the pool account
follows the reserves, the fee account what is charged and paid out. -/
theorem Books.Takes.change_custody (taken : b.Takes c deal b') (coherent : b.store.Coherent)
    (outside : b.store.Outside c) (custody : ¬ c.IsOutside account) (asset : Asset) :
    Balances.changeOf (deal.movements c) asset account =
      (if account = c.poolAccount then deal.reserveChange asset else 0) +
        if account = c.feeAccount then deal.charged asset - deal.paid asset else 0 := by
  have allowed := taken.allowed
  cases deal with
  | opened caller market base quote | added caller market base quote =>
    rw [Deal.movements, market.changeOf_in (allowed.1.2.ne custody)]
    simp only [Deal.reserveChange, Deal.charged, Deal.paid, Int.sub_self, ite_self, Int.add_zero]
  | withdrawn caller market base quote =>
    rw [Deal.movements, market.changeOf_out (allowed.1.2.ne custody)]
    simp only [Deal.reserveChange, Deal.charged, Deal.paid, Int.sub_self, ite_self, Int.add_zero]
  | traded caller market amount quote =>
    have apart := allowed.1.2.ne custody
    cases side : quote.side with
    | buy =>
      simp only [Deal.movements, side, Side.orient, Balances.changeOf_cons, Balances.changeOf_nil,
        Movement.change_of_ne_source apart, Movement.change_of_ne_dest apart, Deal.reserveChange,
        Deal.charged, Deal.paid, Market.spread]
      split_ifs <;> omega
    | sell =>
      simp only [Deal.movements, side, Side.orient, Balances.changeOf_cons, Balances.changeOf_nil,
        Movement.change_of_ne_source apart, Movement.change_of_ne_dest apart, Deal.reserveChange,
        Deal.charged, Deal.paid, Market.spread]
      split_ifs <;> omega
  | settled market payouts dust =>
    obtain ⟨-, pool, -, due, -⟩ := allowed
    have about : ∀ p ∈ payouts, p.market = market ∧ c.IsOutside p.provider := by
      rw [due]
      intro p member
      obtain ⟨same, position, listed⟩ := Payout.mem_due member
      exact ⟨same, outside _ _ (Store.hasPosition_of_mem coherent listed)⟩
    rw [Deal.movements, changeOf_payouts custody about]
    simp only [Deal.reserveChange, Deal.charged, Deal.paid, Int.zero_sub, ite_self, Int.zero_add]

theorem Books.Takes.custody (taken : b.Takes c deal b') (coherent : b.store.Coherent)
    (outside : b.store.Outside c) (apart : c.poolAccount ≠ c.feeAccount) (asset : Asset) :
    Balances.changeOf (deal.movements c) asset c.poolAccount = deal.reserveChange asset ∧
      Balances.changeOf (deal.movements c) asset c.feeAccount =
        deal.charged asset - deal.paid asset := by
  have pool := taken.change_custody coherent outside (fun own => own.1 rfl) asset
  have fee := taken.change_custody coherent outside (fun own => own.2 rfl) asset
  rw [if_pos rfl, if_neg apart, Int.add_zero] at pool
  rw [if_neg apart.symm, if_pos rfl, Int.zero_add] at fee
  exact ⟨pool, fee⟩

end Movements

namespace Store

variable {s : Store} {market : Market} {provider : Account} {position : Position}

theorem Coherent.bare (coherent : s.Coherent) : s.bare.Coherent := coherent.congr rfl rfl

theorem Coherent.revise (coherent : s.Coherent) (f : Pool → Pool) :
    (s.revise market f).Coherent := by
  unfold Store.revise
  split
  · exact coherent.writePool _ _
  · exact coherent

theorem Coherent.keepPosition (coherent : s.Coherent) :
    (s.keepPosition market provider position).Coherent := by
  unfold Store.keepPosition
  split
  · exact coherent
  · exact coherent.putPosition position

theorem Outside.putPosition {c : Config} (outside : s.Outside c) (own : c.IsOutside provider) :
    (s.putPosition market provider position).Outside c := by
  intro other account recorded
  rw [hasPosition, position?_putPosition] at recorded
  split at recorded
  next same =>
    cases same
    exact own
  next => exact outside other account recorded

theorem Outside.keepPosition {c : Config} (outside : s.Outside c) (own : c.IsOutside provider) :
    (s.keepPosition market provider position).Outside c := by
  unfold Store.keepPosition
  split
  · exact outside
  · exact outside.putPosition own

theorem Outside.revise {c : Config} (outside : s.Outside c) (f : Pool → Pool) :
    (s.revise market f).Outside c := by
  unfold Store.revise
  split
  · exact outside
  · exact outside

end Store

namespace Books

/-- Books whose positions all belong to accounts outside custody. -/
structure Custodial (c : Config) (b : Books) : Prop where
  coherent : b.store.Coherent
  sound : b.balances.Sound
  outside : b.store.Outside c

theorem Takes.custodial (taken : b.Takes c deal b') (custodial : b.Custodial c) :
    b'.Custodial c := by
  obtain ⟨coherent, sound, outside⟩ := custodial
  have allowed := taken.allowed
  refine ⟨?_, (Balances.moveAll_effect sound taken.moved).1, ?_⟩
  · rw [taken.store]
    cases deal with
    | opened => exact ((coherent.writePool _ _).putPosition _).bare
    | added => exact (coherent.revise _).keepPosition.bare
    | withdrawn => exact (coherent.revise _).keepPosition.bare
    | traded => exact (coherent.revise _).bare
    | settled => exact (coherent.revise _).bare
  · rw [taken.store]
    cases deal with
    | opened =>
      exact Store.Outside.putPosition (s := Store.writePool ..) outside allowed.1.2
    | added => exact (outside.revise _).keepPosition allowed.1.2
    | withdrawn => exact (outside.revise _).keepPosition allowed.1.2
    | traded => exact outside.revise _
    | settled => exact outside.revise _

def sumOf (f : Asset → Deal → Int) (asset : Asset) (deals : List Deal) : Int :=
  (deals.map (f asset)).sum

theorem Run.conserves {deals : List Deal} (run : b.Run c deals b') (custodial : b.Custodial c)
    (apart : c.poolAccount ≠ c.feeAccount) (asset : Asset) :
    (b'.balances.get c.poolAccount asset : Int) - b'.store.reserves asset =
        b.balances.get c.poolAccount asset - b.store.reserves asset ∧
      (b'.balances.get c.feeAccount asset : Int) - b'.store.fees asset =
        b.balances.get c.feeAccount asset - b.store.fees asset + sumOf Deal.dust asset deals ∧
      b'.store.fees asset = b.store.fees asset + sumOf Deal.charged asset deals -
        sumOf Deal.paid asset deals - sumOf Deal.dust asset deals ∧
      b'.balances.total asset = b.balances.total asset := by
  induction run with
  | nil b => simp [sumOf]
  | @cons b b₁ b₂ deal deals taken rest ih =>
    obtain ⟨pool, fee, fees, total⟩ := ih (taken.custodial custodial)
    obtain ⟨toPool, toFee⟩ := taken.custody custodial.coherent custodial.outside apart asset
    obtain ⟨-, totals, changes⟩ := Balances.moveAll_effect custodial.sound taken.moved
    have poolChange := changes c.poolAccount asset
    have feeChange := changes c.feeAccount asset
    have reserves' := taken.reserves asset
    have fees' := taken.fees asset
    have split (f : Asset → Deal → Int) :
        sumOf f asset (deal :: deals) = f asset deal + sumOf f asset deals := List.sum_cons
    rw [toPool] at poolChange
    rw [toFee] at feeChange
    rw [split, split, split]
    exact ⟨by omega, by omega, by omega, total.trans (totals asset)⟩

end Books

section Observed

def Event.charged (asset : Asset) (e : Event) : Int :=
  match e.kind with
  | .bought => e.market.spread asset 0 (e.amount "fee")
  | .sold => e.market.spread asset (e.amount "fee") 0
  | _ => 0

def Event.paid (asset : Asset) (e : Event) : Int :=
  match e.kind with
  | .providerRewarded => e.market.spread asset (e.amount "base_amount") (e.amount "quote_amount")
  | _ => 0

def Payout.Report.dustIn (asset : Asset) (r : Payout.Report) : Int :=
  (r.dust.map fun entry => entry.1.spread asset entry.2.1 entry.2.2).sum

theorem Payout.sum_charged_event (asset : Asset) (payouts : List Payout) :
    ((payouts.map Payout.event).map (Event.charged asset)).sum = 0 := by
  induction payouts with
  | nil => rfl
  | cons p rest ih =>
    rw [List.map_cons, List.map_cons, List.sum_cons, ih]
    rfl

theorem Payout.sum_paid_event (asset : Asset) {market : Market} {payouts : List Payout}
    (about : ∀ p ∈ payouts, p.market = market) :
    ((payouts.map Payout.event).map (Event.paid asset)).sum =
      market.spread asset (totalBase payouts) (totalQuote payouts) := by
  induction payouts with
  | nil => simp [Market.spread, totalBase, totalQuote]
  | cons p rest ih =>
    obtain rfl := about p List.mem_cons_self
    have one : Event.paid asset p.event = p.market.spread asset p.base p.quote := rfl
    have base : totalBase (p :: rest) = p.base + totalBase rest := List.sum_cons
    have quote : totalQuote (p :: rest) = p.quote + totalQuote rest := List.sum_cons
    rw [List.map_cons, List.map_cons, List.sum_cons, ih fun q member =>
      about q (List.mem_cons_of_mem _ member), one, base, quote, Int.natCast_add, Int.natCast_add,
      Market.spread_add]

theorem Books.Takes.told (taken : b.Takes c deal b') (asset : Asset) :
    (deal.events.map (Event.charged asset)).sum = deal.charged asset ∧
      (deal.events.map (Event.paid asset)).sum = deal.paid asset := by
  cases deal with
  | opened | added | withdrawn => exact ⟨rfl, rfl⟩
  | traded caller market amount quote =>
    simp only [Deal.events, List.map_cons, List.map_nil, List.sum_singleton, Exchange.traded,
      Deal.charged, Deal.paid]
    cases quote.side with
    | buy => exact ⟨rfl, rfl⟩
    | sell => exact ⟨rfl, rfl⟩
  | settled market payouts dust =>
    obtain ⟨-, pool, -, due, -⟩ := taken.allowed
    refine ⟨Payout.sum_charged_event asset payouts, Payout.sum_paid_event asset fun p member => ?_⟩
    rw [due] at member
    exact (Payout.mem_due member).1

theorem Books.Run.told {deals : List Deal} (run : b.Run c deals b') (asset : Asset) :
    ((deals.flatMap Deal.events).map (Event.charged asset)).sum = sumOf Deal.charged asset deals ∧
      ((deals.flatMap Deal.events).map (Event.paid asset)).sum = sumOf Deal.paid asset deals := by
  induction run with
  | nil b => exact ⟨rfl, rfl⟩
  | cons taken rest ih =>
    obtain ⟨charged, paid⟩ := taken.told asset
    simp only [List.flatMap_cons, List.map_append, List.sum_append, sumOf, List.map_cons,
      List.sum_cons] at ih ⊢
    exact ⟨by rw [charged, ih.1], by rw [paid, ih.2]⟩

/-- Reports that list the dust of some deals sum it up. -/
theorem sum_dustIn {deals : List Deal} {reports : List Payout.Report}
    (told : deals.filterMap Deal.dust? = reports.flatMap (·.dust)) (asset : Asset) :
    Books.sumOf Deal.dust asset deals = (reports.map (Payout.Report.dustIn asset)).sum := by
  have left : Books.sumOf Deal.dust asset deals =
      ((deals.filterMap Deal.dust?).map fun entry =>
        entry.1.spread asset entry.2.1 entry.2.2).sum := by
    unfold Books.sumOf
    clear told
    induction deals with
    | nil => rfl
    | cons deal rest ih =>
      rw [List.map_cons, List.sum_cons, ih]
      cases deal with
      | settled market payouts dust => exact List.sum_cons.symm
      | _ => exact Int.zero_add _
  have right : (reports.map (Payout.Report.dustIn asset)).sum =
      ((reports.flatMap (·.dust)).map fun entry =>
        entry.1.spread asset entry.2.1 entry.2.2).sum := by
    clear told
    induction reports with
    | nil => rfl
    | cons report rest ih =>
      rw [List.map_cons, List.sum_cons, ih, List.flatMap_cons, List.map_append, List.sum_append]
      rfl
  rw [left, right, told]

theorem spread_nonneg (m : Market) (asset : Asset) (base quote : Nat) :
    0 ≤ m.spread asset base quote := by
  unfold Market.spread
  split <;> split <;> omega

theorem Store.reserves_nonneg (s : Store) (asset : Asset) : 0 ≤ s.reserves asset :=
  Table.sum_nonneg (fun m _ => spread_nonneg m asset _ _) s.pools

theorem Store.fees_nonneg (s : Store) (asset : Asset) : 0 ≤ s.fees asset :=
  Table.sum_nonneg (fun m _ => spread_nonneg m asset _ _) s.pools

theorem Market.le_spread (m : Market) (base quote : Nat) :
    (base : Int) ≤ m.spread m.base base quote ∧ (quote : Int) ≤ m.spread m.quote base quote := by
  unfold spread
  rw [if_pos rfl, if_pos rfl]
  constructor
  · split <;> omega
  · split <;> omega

section Held

variable {s : Store} {market : Market} {pool : Pool}

theorem Store.spread_le_reserves (held : s.pool? market = some pool) (asset : Asset) :
    market.spread asset pool.baseReserve pool.quoteReserve ≤ s.reserves asset :=
  calc
    _ = s.pools.weight (fun m pool => m.spread asset pool.baseReserve pool.quoteReserve) market :=
      (Table.weight_of_get? held).symm
    _ ≤ s.reserves asset :=
      Table.weight_le_sum (fun m _ => spread_nonneg m asset _ _) s.pools market

theorem Store.spread_le_fees (held : s.pool? market = some pool) (asset : Asset) :
    market.spread asset pool.baseFees pool.quoteFees ≤ s.fees asset :=
  calc
    _ = s.pools.weight (fun m pool => m.spread asset pool.baseFees pool.quoteFees) market :=
      (Table.weight_of_get? held).symm
    _ ≤ s.fees asset := Table.weight_le_sum (fun m _ => spread_nonneg m asset _ _) s.pools market

end Held

theorem sumOf_dust_nonneg (asset : Asset) (deals : List Deal) :
    0 ≤ Books.sumOf Deal.dust asset deals := by
  refine Table.nonneg_sum fun n member => ?_
  obtain ⟨deal, -, rfl⟩ := List.mem_map.1 member
  cases deal with
  | settled market payouts dust => exact spread_nonneg market asset dust.1 dust.2
  | _ => exact Int.le_refl 0

end Observed

namespace Exchange

variable {ρ : Type} {carrier : Carrier ρ} {x : Exchange ρ}

theorem custodial_books (sound : x.Sound) (outside : x.store.Outside x.config) :
    x.books.Custodial x.config :=
  ⟨sound.store.bare, sound.ledger, outside⟩

/-- Whatever a host does, the pool account keeps backing the reserves: beyond them it holds neither
more nor less than before, and no asset is made or lost. So an exchange that starts without pools,
and with nothing in its pool account, always holds there exactly what the reserves come to. -/
theorem custody_backs_reserves (plain : carrier.Plain) (sound : x.Sound)
    (outside : x.store.Outside x.config) (apart : x.config.poolAccount ≠ x.config.feeAccount)
    (p : Program) (asset : Asset) :
    let y := (p.run carrier x).2
    (y.balance asset x.config.poolAccount : Int) - y.store.reserves asset =
        x.balance asset x.config.poolAccount - x.store.reserves asset ∧
      y.ledger.total asset = x.ledger.total asset ∧
      (x.store = {} → x.balance asset x.config.poolAccount = 0 →
        (y.balance asset x.config.poolAccount : Int) = y.store.reserves asset) := by
  intro y
  obtain ⟨deals, leads, -⟩ := p.commits plain sound
  obtain ⟨pool, -, -, total⟩ := leads.run.conserves (custodial_books sound outside) apart asset
  have backed : (y.balance asset x.config.poolAccount : Int) - y.store.reserves asset =
      x.balance asset x.config.poolAccount - x.store.reserves asset := pool
  refine ⟨backed, total, fun unused nothing => ?_⟩
  have none : x.store.reserves asset = 0 := by rw [unused]; rfl
  omega

def tradingDay : Program :=
  .seq (.request (.create (.str "alice") (.int 1) (.int 2) (.int 50000) (.int 50000)))
    (.seq (.request (.trade .buy (.str "alice") (.tuple [.int 1, .int 2]) (.int 7000) (.int 0)))
      (.distribute none .null))

def morning : Exchange Unit := fresh .usual Program.aliceBalances ()

theorem sound_morning : morning.Sound := sound_fresh Program.sound_aliceBalances .usual ()

theorem outside_morning : morning.store.Outside morning.config := fun _ _ => nofun

theorem apart_morning : morning.config.poolAccount ≠ morning.config.feeAccount := by decide +kernel

theorem custody_after_tradingDay :
    ((tradingDay.run .direct morning).2.balance 1 morning.config.poolAccount : Int) = 43865 := by
  have nothing : morning.balance 1 morning.config.poolAccount = 0 := by decide +kernel
  have left : (tradingDay.run .direct morning).2.store.reserves 1 = 43865 := by decide +kernel
  have backed := custody_backs_reserves Carrier.plain_direct sound_morning outside_morning
    apart_morning tradingDay 1
  exact (backed.2.2 rfl nothing).trans left

/-- Whatever a host does, the fee account holds beyond the fee counters what it held before and the
dust that its payout runs reported. So an exchange that starts without pools always holds there what
the counters owe, and by its log never rewards providers with more than it charged. -/
theorem custody_backs_fees (plain : carrier.Plain) (sound : x.Sound)
    (outside : x.store.Outside x.config) (apart : x.config.poolAccount ≠ x.config.feeAccount)
    (p : Program) (asset : Asset) :
    let y := (p.run carrier x).2
    (y.balance asset x.config.feeAccount : Int) - y.store.fees asset =
        x.balance asset x.config.feeAccount - x.store.fees asset +
          ((p.reports carrier x).map (Payout.Report.dustIn asset)).sum ∧
      (x.store = {} → x.log = [] → x.openUnits = [] →
        y.store.fees asset ≤ y.balance asset x.config.feeAccount ∧
          (y.log.map (Event.paid asset)).sum ≤ (y.log.map (Event.charged asset)).sum) := by
  intro y
  obtain ⟨deals, leads, left⟩ := p.commits plain sound
  obtain ⟨-, fee, fees, -⟩ := leads.run.conserves (custodial_books sound outside) apart asset
  obtain ⟨charged, paid⟩ := leads.run.told asset
  have dust := sum_dustIn left asset
  have dust_nonneg := sumOf_dust_nonneg asset deals
  have backed : (y.balance asset x.config.feeAccount : Int) - y.store.fees asset =
      x.balance asset x.config.feeAccount - x.store.fees asset +
        Books.sumOf Deal.dust asset deals := fee
  refine ⟨by rw [backed, dust], fun unused silent idle => ?_⟩
  have none : x.store.fees asset = 0 := by rw [unused]; rfl
  have log : y.log = deals.flatMap Deal.events := by
    rw [leads.follows.log, log_deliver, if_pos idle, silent, List.nil_append]
  have owed : y.store.fees asset = x.store.fees asset + Books.sumOf Deal.charged asset deals -
      Books.sumOf Deal.paid asset deals - Books.sumOf Deal.dust asset deals := fees
  have fees_nonneg := y.store.fees_nonneg asset
  rw [log, charged, paid]
  exact ⟨by omega, by omega⟩

theorem fees_after_tradingDay :
    (tradingDay.run .direct morning).2.store.fees 2 ≤
        (tradingDay.run .direct morning).2.balance 2 morning.config.feeAccount ∧
      ((tradingDay.run .direct morning).2.log.map (Event.paid 2)).sum ≤ 7 := by
  have charged : ((tradingDay.run .direct morning).2.log.map (Event.charged 2)).sum = 7 := by
    decide +kernel
  have backed := custody_backs_fees Carrier.plain_direct sound_morning outside_morning apart_morning
    tradingDay 2
  rw [← charged]
  exact backed.2 rfl rfl rfl

end Exchange

end LiquidityPools
