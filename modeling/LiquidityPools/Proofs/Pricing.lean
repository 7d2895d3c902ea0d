import LiquidityPools.Proofs.Curve
import LiquidityPools.Proofs.Rounding

/-!
Quotes in closed form. A trade is priced exactly if both reserves hold something and, unless nothing
is spent, the fee's product, the product of the reserves and the new reserve on the spent side all
fit under the cap; otherwise pricing fails on arithmetic. The fee is the rate's part of what is
spent, rounded down, and the rest trades as it would alone.
-/

namespace LiquidityPools

namespace Side

theorem pos_orient (side : Side) {base quote : ℕ} :
    0 < (side.orient base quote).1 ∧ 0 < (side.orient base quote).2 ↔ 0 < base ∧ 0 < quote := by
  cases side
  · exact and_comm
  · exact Iff.rfl

theorem mul_orient_int (side : Side) (base quote : ℕ) :
    ((side.orient base quote).1 * (side.orient base quote).2 : Int) = base * quote := by
  exact_mod_cast side.mul_orient base quote

end Side

namespace FeeRate

variable (rate : FeeRate)

def partOf (gross : Int) : Int := gross * rate.numerator / rate.denominator

theorem partOf_natCast (gross : ℕ) :
    rate.partOf gross = ((gross * rate.numerator / rate.denominator : ℕ) : Int) := by
  rw [partOf, Int.natCast_div, Int.natCast_mul]

theorem partOf_lt {gross : ℕ} (spent : 0 < gross) : rate.partOf gross < gross := by
  rw [partOf_natCast, Int.ofNat_lt, Nat.div_lt_iff_lt_mul rate.denominator_pos]
  exact Nat.mul_lt_mul_of_pos_left rate.below_one spent

end FeeRate

namespace Quote

variable {cap : Int} {pool : Pool} {side : Side} {rate : FeeRate} {quote : Quote}

theorem priceOf_int (gross : Int) :
    priceOf cap pool (.side side) (.int gross) rate = price cap pool side gross rate := by
  unfold priceOf
  by_cases negative : gross < 0
  · simp [Value.integer, negative, price, bind, Except.bind]
  · simp [Value.integer, negative, Side.Given.check, bind, Except.bind]

theorem isSpent_int (n : Int) : isSpent (.int n) = .ok (decide (n ≤ 0)) := by
  simp only [isSpent, Value.holds, Value.order, Value.quantity?, Value.compareQuantities,
    Number.Quantity.lt_ofInt, Number.Quantity.eq_ofInt, Except.map, decide_eq_true_eq, beq_iff_eq]
  split_ifs with below same above
  all_goals
    simp only [Option.any, Relation.allows, Ordering.isLE, Except.ok.injEq]
    symm
    simp only [decide_eq_true_eq, decide_eq_false_iff_not]
    omega

theorem orient_int (side : Side) (base quote : Int) :
    side.orient (Value.int base) (Value.int quote) =
      (.int (side.orient base quote).1, .int (side.orient base quote).2) := by
  cases side <;> rfl

theorem receiveOf_int (base quote amount : Int) :
    receiveOf cap (.int base) (.int quote) (.side side) (.int amount) =
      receive cap base quote side amount := by
  have zero : (Value.int amount).isZero = (amount == 0) := Number.Quantity.eq_ofInt amount 0
  simp only [receiveOf, receive, Side.Given.check, bind, Except.bind, orient_int, isSpent_int, zero]
  by_cases first : (side.orient base quote).1 ≤ 0
  · simp [first]
  by_cases second : (side.orient base quote).2 ≤ 0
  · simp [first, second]
  by_cases idle : amount = 0
  · simp [first, second, idle, pure, Except.pure]
  · simp [first, second, idle, Curve.swapOf, Value.integer, bind, Except.bind]
    rfl

def charge (rate : FeeRate) (cap : Int) (gross : ℕ) : Except Fault ℕ :=
  if gross = 0 then pure 0 else rate.fee cap gross

theorem charge_eq_ok_iff {gross fee : ℕ} : charge rate cap gross = .ok fee ↔
    (gross = 0 ∨ ((gross * rate.numerator : ℕ) : Int) ≤ cap) ∧ (fee : Int) = rate.partOf gross := by
  rw [charge, rate.partOf_natCast, Int.natCast_inj]
  split
  next idle =>
    subst idle
    simp [pure, Except.pure, eq_comm]
  next spent => simp [FeeRate.fee_eq_ok_iff, spent]

def ofSwap (side : Side) (gross fee net : ℕ) (s : Curve.Swap) : Quote where
  side := side
  grossAmount := gross
  fee := fee
  netAmount := net
  receiveAmount := s.amountOut
  newBaseReserve := (side.orient s.newReserveIn s.newReserveOut).1
  newQuoteReserve := (side.orient s.newReserveIn s.newReserveOut).2
  productBefore := s.productBefore
  productAfter := s.productAfter

theorem price_eq_ok_iff {gross : ℕ} : price cap pool side gross rate = .ok quote ↔
    (0 < pool.baseReserve ∧ 0 < pool.quoteReserve) ∧
      ∃ fee net s, charge rate cap gross = .ok fee ∧ Amount.sub cap gross fee = .ok net ∧
        Curve.swap cap (side.orient pool.baseReserve pool.quoteReserve).1
          (side.orient pool.baseReserve pool.quoteReserve).2 net = .ok s ∧
        ofSwap side gross fee net s = quote := by
  have filled : (side.orient pool.baseReserve pool.quoteReserve).1 = 0 ∨
      (side.orient pool.baseReserve pool.quoteReserve).2 = 0 ↔
        ¬ (0 < pool.baseReserve ∧ 0 < pool.quoteReserve) := by
    rw [← side.pos_orient]
    omega
  rw [price, if_neg (by omega)]
  by_cases held : 0 < pool.baseReserve ∧ 0 < pool.quoteReserve
  · simp only [filled, held, not_true, if_false, true_and, Int.toNat_natCast, charge]
    split
    all_goals
      simp only [Except.bind_eq_ok_iff, exists_and_left, pure, Except.pure, Except.ok.injEq,
        ofSwap]
  · simp only [filled, held, not_false_eq_true, if_true, reduceCtorEq, false_and]

/-- What spends at least a unit trades at least a unit, so the product and the new reserve have to
fit. -/
theorem exists_price_iff {cap gross : ℕ} : (∃ quote, price cap pool side gross rate = .ok quote) ↔
    (0 < pool.baseReserve ∧ 0 < pool.quoteReserve) ∧
      (gross = 0 ∨ (gross * rate.numerator : Int) ≤ cap ∧
        (pool.baseReserve * pool.quoteReserve : Int) ≤ cap ∧
        (side.orient pool.baseReserve pool.quoteReserve).1 +
          (gross - rate.partOf gross) ≤ cap) := by
  have product := side.mul_orient_int pool.baseReserve pool.quoteReserve
  have floor := rate.partOf_natCast gross
  simp only [price_eq_ok_iff, exists_and_left]
  refine and_congr_right fun held => ⟨?_, fun room => ?_⟩
  · rintro ⟨quote, fee, charged, net, netted, s, traded, -⟩
    obtain ⟨room, fee⟩ := charge_eq_ok_iff.1 charged
    obtain ⟨covered, rfl, -⟩ := Amount.sub_eq_ok_iff.1 netted
    obtain ⟨-, wide, -⟩ := Curve.swap_eq_ok_iff.1 traded
    rw [Int.natCast_mul, product] at wide
    by_cases idle : gross = 0
    · exact .inl idle
    · have left := rate.partOf_lt (Nat.pos_of_ne_zero idle)
      push_cast at room wide
      omega
  · have covered : gross * rate.numerator / rate.denominator ≤ gross := by
      rcases Nat.eq_zero_or_pos gross with rfl | spent
      · simp
      · have left := rate.partOf_lt spent
        omega
    generalize gross * rate.numerator / rate.denominator = fee at floor covered
    refine ⟨_, _, charge_eq_ok_iff.2 ⟨?_, floor.symm⟩, _, Amount.sub_eq_ok_iff.2 ⟨covered, rfl, ?_⟩,
      _, Curve.swap_eq_ok_iff.2 ⟨side.pos_orient.2 held, ?_, rfl⟩, rfl⟩
    all_goals
      push_cast [covered]
      omega

structure Exact (cap : Int) (pool : Pool) (side : Side) (gross : Int) (rate : FeeRate) (q : Quote) :
    Prop where
  onSide : q.side = side
  asked : q.grossAmount = gross
  fee : q.fee = rate.partOf gross
  netAmount : q.netAmount = gross - rate.partOf gross
  fee_lt : 0 < gross → q.fee < gross
  netAmount_pos : 0 < gross → 1 ≤ q.netAmount
  received : receiveOf cap (.int pool.baseReserve) (.int pool.quoteReserve) (.side side)
    (.int q.netAmount) =
    .ok q.receiveAmount
  grows : (side.orient q.newBaseReserve q.newQuoteReserve).1 =
    (side.orient pool.baseReserve pool.quoteReserve).1 + q.netAmount
  shrinks : (side.orient q.newBaseReserve q.newQuoteReserve).2 + q.receiveAmount =
    (side.orient pool.baseReserve pool.quoteReserve).2
  productBefore : q.productBefore = pool.baseReserve * pool.quoteReserve
  productAfter : q.productAfter = q.newBaseReserve * q.newQuoteReserve

theorem orient_natCast (side : Side) (base quote : ℕ) :
    side.orient (base : Int) (quote : Int) =
      (((side.orient base quote).1 : Int), ((side.orient base quote).2 : Int)) := by
  cases side <;> rfl

/-- Spending an amount from which no fee is taken is a trade along the curve, also where it is
nothing. -/
theorem receive_eq_ok_iff {base quote received : ℕ} {amount : Int} :
    receive cap base quote side amount = .ok received ↔
      ∃ s, Curve.swap cap (side.orient base quote).1 (side.orient base quote).2 amount = .ok s ∧
        s.amountOut = received := by
  simp only [receive, orient_natCast]
  generalize (side.orient base quote).1 = x
  generalize (side.orient base quote).2 = y
  by_cases empty : (x : Int) ≤ 0 ∨ (y : Int) ≤ 0
  · rw [if_pos empty, Curve.swap, if_pos empty]
    simp
  rw [if_neg empty]
  by_cases idle : amount = 0
  · rw [if_pos idle, Curve.swap, if_neg empty]
    simp [idle]
  · rw [if_neg idle]
    cases Curve.swap cap x y amount with
    | error fault => simp [Except.map]
    | ok s => simp [Except.map]

theorem exists_received_iff {base quote : ℕ} {amount : Int} :
    (∃ received, receive cap base quote side amount = .ok received) ↔
      (0 < base ∧ 0 < quote) ∧
        (amount = 0 ∨ 0 < amount ∧ (base * quote : Int) ≤ cap ∧
          (side.orient base quote).1 + amount ≤ cap) := by
  simp only [receive_eq_ok_iff, @exists_comm ℕ, exists_and_left, exists_eq', and_true]
  rw [Curve.exists_swap_iff, Int.natCast_pos, Int.natCast_pos, side.pos_orient, side.mul_orient_int]

theorem exact_of_price {gross : ℕ} (priced : price cap pool side gross rate = .ok quote) :
    Exact cap pool side gross rate quote := by
  have balanced := balanced_of_price priced
  obtain ⟨-, fee, net, s, charged, netted, traded, rfl⟩ := price_eq_ok_iff.1 priced
  obtain ⟨-, charged⟩ := charge_eq_ok_iff.1 charged
  obtain ⟨covered, net, -⟩ := Amount.sub_eq_ok_iff.1 netted
  have exact := Curve.exact_of_swap traded
  refine
    { onSide := rfl
      asked := rfl
      fee := charged
      netAmount := ?_
      fee_lt := fun spent => ?_
      netAmount_pos := fun spent => ?_
      received := ?_
      grows := balanced.grows
      shrinks := balanced.shrinks
      productBefore := ?_
      productAfter := ?_ }
  all_goals simp only [ofSwap]
  · omega
  · have left := rate.partOf_lt (Int.natCast_pos.1 spent)
    omega
  · have left := rate.partOf_lt (Int.natCast_pos.1 spent)
    omega
  · rw [receiveOf_int]
    exact receive_eq_ok_iff.2 ⟨s, traded, rfl⟩
  · have whole := exact.productBefore
    rw [← side.mul_orient pool.baseReserve pool.quoteReserve]
    exact_mod_cast whole
  · rw [side.mul_orient, exact.productAfter]

/-- A quote is given exactly if both reserves hold something and, unless nothing is spent, the fee's
product, the product of the reserves and the new reserve on the spent side fit under the cap;
otherwise pricing fails on arithmetic. A quote is in closed form: its net amount receives what it
would receive where no fee is taken, and at a rate of nothing the two ways of asking have an answer
for the same amounts. -/
theorem price_exact (cap : ℕ) (pool : Pool) (side : Side) (gross : Int) (rate : FeeRate) :
    ((∃ quote, priceOf cap pool (.side side) (.int gross) rate = .ok quote) ↔
        0 ≤ gross ∧ (0 < pool.baseReserve ∧ 0 < pool.quoteReserve) ∧
          (gross = 0 ∨ gross * rate.numerator ≤ cap ∧
            (pool.baseReserve * pool.quoteReserve : Int) ≤ cap ∧
            (side.orient pool.baseReserve pool.quoteReserve).1 + (gross - rate.partOf gross) ≤
              cap)) ∧
      (∀ quote, priceOf cap pool (.side side) (.int gross) rate = .ok quote →
        Exact cap pool side gross rate quote) ∧
      (∀ fault, priceOf cap pool (.side side) (.int gross) rate = .error fault →
        fault.kind = .arithmetic) ∧
      (rate.numerator = 0 →
        ((∃ quote, priceOf cap pool (.side side) (.int gross) rate = .ok quote) ↔
          ∃ amount, receiveOf cap (.int pool.baseReserve) (.int pool.quoteReserve) (.side side)
            (.int gross) =
            .ok amount)) := by
  simp only [priceOf_int, receiveOf_int, exists_received_iff]
  by_cases negative : gross < 0
  · simp only [price, if_pos negative, reduceCtorEq, Except.error.injEq]
    refine ⟨?_, fun quote priced => ?_, ?_, fun free => ?_⟩
    · simp only [exists_false, false_iff]
      omega
    · cases priced
    · rintro fault rfl
      rfl
    · simp only [exists_false, false_iff]
      omega
  · lift gross to ℕ using Int.not_lt.1 negative
    refine ⟨?_, fun quote => exact_of_price, fun fault failed =>
      (failsOnly_price fault failed).kind, fun free => ?_⟩
    · rw [exists_price_iff]
      simp
    · have nothing : rate.partOf gross = 0 := by simp [FeeRate.partOf, free]
      rw [exists_price_iff, free, nothing]
      simp only [Int.natCast_eq_zero, Int.natCast_pos, Nat.cast_zero, Int.mul_zero,
        Int.natCast_nonneg, true_and, Int.sub_zero]
      omega

end Quote

end LiquidityPools
