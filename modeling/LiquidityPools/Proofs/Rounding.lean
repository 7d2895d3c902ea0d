import Mathlib.Algebra.Order.Floor.Div
import LiquidityPools.Proofs.Quote

/-!
What rounding gives away over a sequence of trades. Each trade cuts the product of the reserves down
to a multiple of the new reserve on the spent side, and what it cuts off is less than that reserve.
The cuts of a sequence add up to what the product has lost: traders can take something out of both
sides only as far as they do, and trading back what was received returns more than was spent by no
more than the first cut bought.
-/

namespace LiquidityPools

namespace Curve

def remainder (x y n : Nat) : Nat := x * y % (x + n)

theorem productAfter_add_remainder (x y n : Nat) :
    (along x y n).productAfter + remainder x y n = x * y :=
  Nat.div_add_mod ..

/-- Trading back no more than was received returns what was spent, and what the remainder bought at
the old price: it is divided by the reserve that the trade received from. -/
theorem amountOut_back_le {x y n m : Nat} (held : 0 < y) (left : 0 < (along x y n).newReserveOut)
    (within : m ≤ (along x y n).amountOut) :
    (along (along x y n).newReserveOut (x + n) m).amountOut ≤ n + remainder x y n ⌈/⌉ y := by
  have bought : remainder x y n ≤ y * (remainder x y n ⌈/⌉ y) :=
    (ceilDiv_le_iff_le_mul held).1 le_rfl
  have whole := productAfter_add_remainder x y n
  have below := left_le x y n
  simp only [along] at left within whole ⊢
  generalize x * y / (x + n) = out at *
  generalize remainder x y n ⌈/⌉ y = price at *
  -- what stays of the first reserve is worth the old one but for the price of the remainder
  have kept : x - price ≤ out * (x + n) / (out + m) := by
    refine (Nat.le_div_iff_mul_le (by omega)).2 ?_
    calc (x - price) * (out + m) ≤ (x - price) * y := Nat.mul_le_mul_left _ (by omega)
      _ = x * y - y * price := by rw [Nat.sub_mul, Nat.mul_comm price]
      _ ≤ out * (x + n) := by rw [Nat.mul_comm out]; omega
  omega

end Curve

def Pool.after (p : Pool) (q : Quote) : Pool :=
  { p with baseReserve := q.newBaseReserve, quoteReserve := q.newQuoteReserve }

def Pool.Drained (before after : Pool) : Prop :=
  (after.baseReserve ≤ before.baseReserve ∧ after.quoteReserve ≤ before.quoteReserve) ∧
    (after.baseReserve < before.baseReserve ∨ after.quoteReserve < before.quoteReserve)

/-- A drained pool has lost at least one unit of a reserve, times all of the other. -/
theorem Pool.Drained.product_add_le {before after : Pool} (drained : before.Drained after) :
    after.product + min before.baseReserve before.quoteReserve ≤ before.product := by
  obtain ⟨⟨base, quote⟩, less⟩ := drained
  unfold product
  rcases less with less | less
  · calc after.baseReserve * after.quoteReserve + min before.baseReserve before.quoteReserve
        ≤ after.baseReserve * before.quoteReserve + before.quoteReserve :=
          Nat.add_le_add (Nat.mul_le_mul_left _ quote) (Nat.min_le_right ..)
      _ = (after.baseReserve + 1) * before.quoteReserve := (Nat.succ_mul ..).symm
      _ ≤ before.baseReserve * before.quoteReserve := Nat.mul_le_mul_right _ less
  · calc after.baseReserve * after.quoteReserve + min before.baseReserve before.quoteReserve
        ≤ before.baseReserve * after.quoteReserve + before.baseReserve :=
          Nat.add_le_add (Nat.mul_le_mul_right _ base) (Nat.min_le_left ..)
      _ = before.baseReserve * (after.quoteReserve + 1) := (Nat.mul_succ ..).symm
      _ ≤ before.baseReserve * before.quoteReserve := Nat.mul_le_mul_left _ less

theorem Side.mul_orient (side : Side) (base quote : Nat) :
    (side.orient base quote).1 * (side.orient base quote).2 = base * quote := by
  cases side with
  | buy => exact Nat.mul_comm ..
  | sell => rfl

theorem Side.orient_flip {α : Type} (side : Side) (base quote : α) :
    side.flip.orient base quote = (side.orient base quote).swap := by
  cases side <;> rfl

namespace Quote

variable {cap : Int} {rate : FeeRate} {pool final : Pool} {side : Side} {quote there back : Quote}
  {quotes : List Quote}

def cutOff (q : Quote) : Nat := q.productBefore - q.productAfter

theorem priced_of_priceInt {gross : Int} (priced : price cap pool side gross rate = .ok quote) :
    Priced cap pool side quote.grossAmount quote := by
  by_cases negative : gross < 0
  · rw [price, if_pos negative] at priced
    cases priced
  · obtain ⟨n, rfl⟩ := Int.eq_ofNat_of_zero_le (Int.not_lt.1 negative)
    have spends := priced_of_price priced
    rw [spends.asked]
    exact spends

section Priced

variable {gross : Nat} (priced : Priced cap pool side gross quote)

include priced

theorem Priced.cutOff_eq : quote.cutOff =
    Curve.remainder (side.orient pool.baseReserve pool.quoteReserve).1
      (side.orient pool.baseReserve pool.quoteReserve).2 quote.netAmount := by
  obtain ⟨-, -, along⟩ := Curve.swap_eq_ok_iff.1 priced.swapped
  have before : quote.productBefore = _ := congrArg Curve.Swap.productBefore along
  have after : quote.productAfter = _ := congrArg Curve.Swap.productAfter along
  have whole := Curve.productAfter_add_remainder
    (side.orient pool.baseReserve pool.quoteReserve).1
    (side.orient pool.baseReserve pool.quoteReserve).2 quote.netAmount
  rw [cutOff, before, after]
  exact Nat.sub_eq_of_eq_add' whole.symm

theorem Priced.product_after :
    (pool.after quote).product + quote.cutOff = pool.product ∧
      quote.cutOff < quote.swap.newReserveIn := by
  obtain ⟨held, -, along⟩ := Curve.swap_eq_ok_iff.1 priced.swapped
  obtain rfl := priced.onSide
  have new : (quote.swap.newReserveIn * quote.swap.newReserveOut) = (pool.after quote).product :=
    Side.mul_orient ..
  have old := Side.mul_orient quote.side pool.baseReserve pool.quoteReserve
  rw [priced.cutOff_eq, ← new, along]
  refine ⟨?_, Nat.mod_lt _ (Nat.add_pos_left held.1 _)⟩
  rw [Pool.product, ← old]
  exact Curve.productAfter_add_remainder ..

end Priced

/-- Trades one after the other, each on the reserves that the one before has left. -/
inductive Chain (cap : Int) (rate : FeeRate) : Pool → List Quote → Pool → Prop
  | nil (pool : Pool) : Chain cap rate pool [] pool
  | cons {pool final : Pool} {side : Side} {gross : Int} {quote : Quote} {quotes : List Quote}
    (priced : price cap pool side gross rate = .ok quote)
    (rest : Chain cap rate (pool.after quote) quotes final) :
    Chain cap rate pool (quote :: quotes) final

theorem Chain.product_add_sum (chain : Chain cap rate pool quotes final) :
    final.product + (quotes.map cutOff).sum = pool.product := by
  induction chain with
  | nil pool => rfl
  | cons priced rest ih =>
    rw [← (priced_of_priceInt priced).product_after.1, ← ih, List.map_cons, List.sum_cons]
    omega

theorem Chain.cutOff_lt (chain : Chain cap rate pool quotes final) :
    ∀ q ∈ quotes, q.cutOff < q.swap.newReserveIn := by
  induction chain with
  | nil pool => exact nofun
  | cons priced rest ih =>
    intro q member
    rcases List.mem_cons.1 member with rfl | member
    · exact (priced_of_priceInt priced).product_after.2
    · exact ih q member

theorem Priced.back_le {gross : Nat} (first : Priced cap pool side gross there)
    (second : Priced cap (pool.after there) side.flip there.receiveAmount back) :
    back.receiveAmount + there.fee ≤ there.grossAmount +
      there.cutOff ⌈/⌉ (side.orient pool.baseReserve pool.quoteReserve).2 := by
  obtain ⟨held, -, along⟩ := Curve.swap_eq_ok_iff.1 first.swapped
  obtain ⟨held', -, along'⟩ := Curve.swap_eq_ok_iff.1 second.swapped
  obtain rfl := first.onSide
  have received : there.receiveAmount = _ := congrArg Curve.Swap.amountOut along
  have newIn : (there.side.orient there.newBaseReserve there.newQuoteReserve).1 = _ :=
    congrArg Curve.Swap.newReserveIn along
  have newOut : (there.side.orient there.newBaseReserve there.newQuoteReserve).2 = _ :=
    congrArg Curve.Swap.newReserveOut along
  have returned : back.receiveAmount = _ := congrArg Curve.Swap.amountOut along'
  have spent := first.spent
  have spent' := second.spent
  have asked := first.asked
  rw [Side.orient_flip] at held' returned
  simp only [Pool.after, Prod.fst_swap, Prod.snd_swap, newIn, newOut] at held' returned
  have bound := Curve.amountOut_back_le (m := back.netAmount) held.2 held'.1 (by omega)
  rw [← first.cutOff_eq] at bound
  have bound : back.receiveAmount ≤ _ := returned ▸ bound
  omega

/-- Over any trades in a row, the product falls short of what it was by exactly what rounding cut
off, each time less than the new reserve on the spent side. So a pool is drained only when the cuts
have come to its smaller reserve; and spending everything received on the other side returns no more
than was spent, less the first fee, and the first cut over the reserve that paid out, rounded up. -/
theorem gain_le_cutOff (chain : Chain cap rate pool quotes final) :
    (final.product + (quotes.map cutOff).sum = pool.product ∧
        ∀ q ∈ quotes, q.cutOff < q.swap.newReserveIn) ∧
      (pool.Drained final → min pool.baseReserve pool.quoteReserve ≤ (quotes.map cutOff).sum) ∧
      ∀ there back, quotes = [there, back] → back.side = there.side.flip →
        back.grossAmount = there.receiveAmount →
        back.receiveAmount + there.fee ≤ there.grossAmount +
          there.cutOff ⌈/⌉ (there.side.orient pool.baseReserve pool.quoteReserve).2 := by
  have total := chain.product_add_sum
  refine ⟨⟨total, chain.cutOff_lt⟩, fun drained => ?_, ?_⟩
  · have lost := drained.product_add_le
    omega
  · rintro there back rfl opposite reinvested
    obtain _ | ⟨first, _ | ⟨second, -⟩⟩ := chain
    have first := priced_of_priceInt first
    have second := priced_of_priceInt second
    obtain rfl := first.onSide
    obtain rfl := second.onSide
    rw [opposite, reinvested] at second
    exact first.back_le second

def evenPool : Pool := { baseReserve := 10, quoteReserve := 10 }

def soldOne : Quote := ⟨.sell, 1, 0, 1, 1, 11, 9, 100, 99⟩

def boughtBack : Quote := ⟨.buy, 1, 0, 1, 2, 9, 10, 99, 90⟩

theorem chain_backAndForth :
    Chain Amount.usualCap .usual evenPool [soldOne, boughtBack] ⟨9, 10, 0, 0⟩ := by
  have sold : price Amount.usualCap evenPool .sell 1 .usual = .ok soldOne := rfl
  have bought : price Amount.usualCap (evenPool.after soldOne) .buy 1 .usual = .ok boughtBack := rfl
  exact .cons sold (.cons bought (.nil _))

theorem drained_backAndForth : evenPool.Drained ⟨9, 10, 0, 0⟩ := by
  unfold Pool.Drained
  decide

theorem gain_backAndForth :
    10 ≤ soldOne.cutOff + (boughtBack.cutOff + 0) ∧
      boughtBack.receiveAmount + 0 ≤ 1 + soldOne.cutOff ⌈/⌉ 10 := by
  obtain ⟨-, drains, returns⟩ := gain_le_cutOff chain_backAndForth
  exact ⟨drains drained_backAndForth, returns soldOne boughtBack rfl rfl rfl⟩

/-- Rounding alone drains a pool: a unit sold buys two units back. -/
theorem drained_by_rounding :
    ∃ there back final, Chain Amount.usualCap .usual evenPool [there, back] final ∧
      evenPool.Drained final ∧ back.side = there.side.flip ∧
      back.grossAmount = there.receiveAmount ∧ there.grossAmount < back.receiveAmount :=
  ⟨soldOne, boughtBack, _, chain_backAndForth, drained_backAndForth, rfl, rfl, by decide⟩

end Quote

end LiquidityPools
