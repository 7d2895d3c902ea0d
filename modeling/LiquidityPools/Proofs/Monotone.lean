import LiquidityPools.Exchange.Trade
import LiquidityPools.Proofs.Clearing
import LiquidityPools.Proofs.Dealing
import LiquidityPools.Proofs.Pricing

/-!
Quotes rise with what is spent. Whatever is priced is priced at every smaller amount too, and then
takes no more in fees, trades and receives no more, and leaves no more of the asset that is spent
and no less of the other in the reserves. So a least that is met at one amount is met at every
larger amount that is priced: a trade of the larger amount goes as if no least had been asked for.
-/

namespace LiquidityPools

variable {ρ : Type}

namespace FeeRate

variable (rate : FeeRate) {less more : ℕ}

theorem partOf_le_partOf (le : less ≤ more) : rate.partOf less ≤ rate.partOf more := by
  rw [partOf_natCast, partOf_natCast, Int.ofNat_le]
  exact Nat.div_le_div_right (Nat.mul_le_mul_right _ le)

theorem partOf_le_add (le : less ≤ more) : rate.partOf more ≤ rate.partOf less + (more - less) := by
  have onTop : more * rate.numerator ≤
      less * rate.numerator + (more - less) * rate.denominator := by
    calc more * rate.numerator
        = less * rate.numerator + (more - less) * rate.numerator := by
          rw [← Nat.add_mul, Nat.add_sub_cancel' le]
      _ ≤ less * rate.numerator + (more - less) * rate.denominator :=
          Nat.add_le_add_left (Nat.mul_le_mul_left _ (Nat.le_of_lt rate.below_one)) _
  have parts := Nat.div_le_div_right (c := rate.denominator) onTop
  rw [Nat.add_mul_div_right _ _ rate.denominator_pos] at parts
  rw [partOf_natCast, partOf_natCast]
  omega

end FeeRate

theorem Curve.newReserveOut_along_le {x n m : ℕ} (held : 0 < x) (le : n ≤ m) (y : ℕ) :
    (along x y m).newReserveOut ≤ (along x y n).newReserveOut :=
  Nat.div_le_div_left (Nat.add_le_add_left le x) (Nat.add_pos_left held n)

namespace Quote

variable {cap : Int} {pool : Pool} {side : Side} {rate : FeeRate} {smaller larger : Quote}

/-- On one side of a pool, the first quote takes, trades and receives no more than the second, and
moves neither reserve further. -/
structure AtMost (side : Side) (q q' : Quote) : Prop where
  fee : q.fee ≤ q'.fee
  netAmount : q.netAmount ≤ q'.netAmount
  receiveAmount : q.receiveAmount ≤ q'.receiveAmount
  newReserveIn : (side.orient q.newBaseReserve q.newQuoteReserve).1 ≤
    (side.orient q'.newBaseReserve q'.newQuoteReserve).1
  newReserveOut : (side.orient q'.newBaseReserve q'.newQuoteReserve).2 ≤
    (side.orient q.newBaseReserve q.newQuoteReserve).2

theorem cap_nonneg_of_price {gross : ℕ} (priced : price cap pool side gross rate = .ok larger) :
    0 ≤ cap := by
  obtain ⟨-, fee, net, s, -, netted, -⟩ := price_eq_ok_iff.1 priced
  obtain ⟨-, -, fits⟩ := Amount.sub_eq_ok_iff.1 netted
  omega

theorem exists_price_of_le {less more : ℕ} (le : less ≤ more)
    (priced : price cap pool side more rate = .ok larger) :
    ∃ smaller, price cap pool side less rate = .ok smaller := by
  lift cap to ℕ using cap_nonneg_of_price priced
  obtain ⟨held, room⟩ := exists_price_iff.1 ⟨larger, priced⟩
  refine exists_price_iff.2 ⟨held, ?_⟩
  by_cases idle : less = 0
  · exact .inl idle
  · obtain ⟨charged, product, newIn⟩ := room.resolve_left (by omega)
    have charge : (less * rate.numerator : Int) ≤ more * rate.numerator := by
      exact_mod_cast Nat.mul_le_mul_right _ le
    have rest := rate.partOf_le_add le
    exact .inr ⟨by omega, product, by omega⟩

theorem atMost_of_price {less more : ℕ} (le : less ≤ more)
    (small : price cap pool side less rate = .ok smaller)
    (large : price cap pool side more rate = .ok larger) : AtMost side smaller larger := by
  have first := exact_of_price small
  have second := exact_of_price large
  have fees := rate.partOf_le_partOf le
  have rest := rate.partOf_le_add le
  have net : smaller.netAmount ≤ larger.netAmount := by
    have firstNet := first.netAmount
    have secondNet := second.netAmount
    omega
  have firstGrows := first.grows
  have secondGrows := second.grows
  have firstShrinks := first.shrinks
  have secondShrinks := second.shrinks
  have left : (side.orient larger.newBaseReserve larger.newQuoteReserve).2 ≤
      (side.orient smaller.newBaseReserve smaller.newQuoteReserve).2 := by
    obtain ⟨rfl, -, -, swapped⟩ := priced_of_price small
    obtain ⟨onSide, -, -, swapped'⟩ := priced_of_price large
    obtain ⟨held, -, along⟩ := Curve.swap_eq_ok_iff.1 swapped
    obtain ⟨-, -, along'⟩ := Curve.swap_eq_ok_iff.1 swapped'
    have reserve : smaller.swap.newReserveOut = _ := congrArg Curve.Swap.newReserveOut along
    have reserve' : larger.swap.newReserveOut = _ := congrArg Curve.Swap.newReserveOut along'
    have reserves := Curve.newReserveOut_along_le held.1 net
      (smaller.side.orient pool.baseReserve pool.quoteReserve).2
    rw [← reserve, ← reserve', swap, swap, onSide] at reserves
    exact reserves
  exact
    { fee := by
        have firstFee := first.fee
        have secondFee := second.fee
        omega
      netAmount := net
      receiveAmount := by omega
      newReserveIn := by omega
      newReserveOut := left }

theorem receiveAmount_le_cap {gross : ℕ} (priced : price cap pool side gross rate = .ok larger) :
    (larger.receiveAmount : Int) ≤ cap := by
  have cap_nonneg := cap_nonneg_of_price priced
  obtain ⟨-, -, -, swapped⟩ := priced_of_price priced
  obtain ⟨held, room, along⟩ := Curve.swap_eq_ok_iff.1 swapped
  have received : larger.receiveAmount = _ := congrArg Curve.Swap.amountOut along
  by_cases idle : larger.netAmount = 0
  · rw [idle, Curve.along_zero held.1] at received
    rw [received]
    exact cap_nonneg
  · obtain ⟨product, -⟩ := room.resolve_left idle
    have within : larger.receiveAmount ≤ (side.orient pool.baseReserve pool.quoteReserve).2 := by
      rw [received]
      exact Nat.sub_le ..
    have whole := Nat.le_mul_of_pos_left (side.orient pool.baseReserve pool.quoteReserve).2 held.1
    omega

end Quote

namespace Exchange

variable {x : Exchange ρ} {market : Market} {pool : Pool} {side : Side} {amount least : ℕ}
    {quote : Quote}

theorem swap_of_met (carrier : Carrier ρ) (caller : Account)
    (held : x.store.pool? market = some pool)
    (priced : Quote.price x.config.cap pool side amount x.config.feeRate = .ok quote)
    (met : least ≤ quote.receiveAmount) :
    swap carrier side caller market amount least x =
      swap carrier side caller market amount 0 x := by
  have read : requirePool market x = (.ok pool, x) := by rw [requirePool, held]
  refine (Action.bind_ok read _).trans (Eq.trans ?_ (Action.bind_ok read _).symm)
  refine Action.bind_congr fun _ y enough => ?_
  obtain rfl : x = y := (requireBalance_same _ _ _ x).symm.trans (congrArg Prod.snd enough)
  rw [Action.bind_read, Action.bind_read, priced]
  rw [Action.bind_lift, Action.bind_lift]
  dsimp only
  rw [if_neg (Nat.not_lt.2 met), if_neg (Nat.not_lt_zero _)]

theorem tradeOf_of_met (carrier : Carrier ρ) (caller : Value) {pair : Value}
    (named : marketOfPair pair = .ok market) (held : x.store.pool? market = some pool)
    (priced : Quote.price x.config.cap pool side amount x.config.feeRate = .ok quote)
    (met : least ≤ quote.receiveAmount) :
    tradeOf carrier side caller pair (.int amount) (.int least) x =
      tradeOf carrier side caller pair (.int amount) (.int 0) x := by
  have fits : (least : Int) ≤ x.config.cap :=
    Int.le_trans (Int.ofNat_le.2 met) (Quote.receiveAmount_le_cap priced)
  have given : amountOf x.config "min_receive" (.int least) = .ok least :=
    amountOf_eq_ok_iff.2 ⟨rfl, Int.ofNat_le.1 fits⟩
  rw [tradeOf, tradeOf, Action.bind_read, Action.bind_read]
  refine Action.bind_congr fun account y called => ?_
  obtain ⟨-, rfl⟩ := Prod.mk.inj called
  rw [named, Action.bind_lift, Action.bind_lift]
  cases spent : amountOf x.config (spentName side) (.int amount) with
  | error fault => rfl
  | ok n =>
    obtain rfl : amount = n := by simpa using (amountOf_eq_ok_iff.1 spent).1
    rw [Action.bind_lift, Action.bind_lift, given, Action.bind_lift]
    refine Eq.trans ?_ (Action.bind_lift _ _ _).symm
    exact unit_congr (swap_of_met carrier account held priced met)

end Exchange

namespace Quote

/-- Whatever is priced is priced at every smaller amount, which takes, trades and receives no more
and moves the reserves no further. So a trade of the larger amount that asks for no more than the
smaller one receives goes, over any carrier, as if it had asked for nothing. -/
theorem price_monotone {cap : Int} {pool : Pool} {side : Side} {rate : FeeRate} {less more : Int}
    {larger : Quote} (start : 0 ≤ less) (le : less ≤ more)
    (priced : priceOf cap pool (.side side) (.int more) rate = .ok larger) :
    ∃ smaller, priceOf cap pool (.side side) (.int less) rate = .ok smaller ∧
      AtMost side smaller larger ∧
      ∀ {ρ : Type} (carrier : Carrier ρ) (x : Exchange ρ) (caller pair : Value) (market : Market)
        (least : ℕ), x.config.cap = cap → x.config.feeRate = rate →
        Exchange.marketOfPair pair = .ok market →
        x.store.pool? market = some pool → least ≤ smaller.receiveAmount →
        Exchange.tradeOf carrier side caller pair (.int more) (.int least) x =
          Exchange.tradeOf carrier side caller pair (.int more) (.int 0) x := by
  lift less to ℕ using start
  lift more to ℕ using by omega
  have fewer : less ≤ more := Int.ofNat_le.1 le
  rw [priceOf_int] at priced
  obtain ⟨smaller, small⟩ := exists_price_of_le fewer priced
  have below := atMost_of_price fewer small priced
  refine ⟨smaller, by rw [priceOf_int, small], below, ?_⟩
  rintro ρ carrier x caller pair market least rfl rfl named held met
  exact Exchange.tradeOf_of_met carrier caller named held priced
    (Nat.le_trans met below.receiveAmount)

end Quote

namespace Exchange

def evenPool : Exchange Unit :=
  { config := narrow, store := ({} : Store).writePool ⟨0, 1⟩ ⟨10, 10, 0, 0⟩ none, host := () }

/-- Four would receive two, so ten meet a least of two. -/
theorem met_at_ten :
    ∃ smaller, Quote.priceOf 255 ⟨10, 10, 0, 0⟩ (.side .buy) (.int 4) narrow.feeRate = .ok smaller ∧
      Quote.AtMost .buy smaller ⟨.buy, 10, 5, 5, 4, 6, 15, 100, 90⟩ ∧
      tradeOf .direct .buy (.str "alice") (.tuple [.int 0, .int 1]) (.int 10)
        (.int (2 : ℕ)) evenPool =
        tradeOf .direct .buy (.str "alice") (.tuple [.int 0, .int 1]) (.int 10) (.int 0)
          evenPool := by
  have priced : Quote.priceOf 255 ⟨10, 10, 0, 0⟩ (.side .buy) (.int 10) narrow.feeRate =
      .ok ⟨.buy, 10, 5, 5, 4, 6, 15, 100, 90⟩ := rfl
  obtain ⟨smaller, small, below, met⟩ :=
    Quote.price_monotone (show (0 : Int) ≤ 4 by decide) (by decide) priced
  refine ⟨smaller, small, below, met .direct evenPool _ _ ⟨0, 1⟩ 2 rfl rfl rfl rfl ?_⟩
  obtain rfl := Except.ok.inj small
  decide

end Exchange

end LiquidityPools
