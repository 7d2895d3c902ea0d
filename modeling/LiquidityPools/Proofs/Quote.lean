import LiquidityPools.Quote

/-!
What a priced trade does to the reserves: the spent side grows by the net amount, and the other side
pays out what the trader receives, so that the product of the reserves is cut down to a multiple of
the new reserve on the spent side. The fee and the net amount together are what the trader spends.
A trade that cannot be priced fails on arithmetic.
-/

namespace LiquidityPools

namespace Except

variable {ε α β : Type}

theorem bind_eq_ok {m : Except ε α} {f : α → Except ε β} {b : β} (done : (m >>= f) = .ok b) :
    ∃ a, m = .ok a ∧ f a = .ok b := by
  cases m with
  | error e => cases done
  | ok a => exact ⟨a, rfl, done⟩

theorem bind_eq_ok_iff {m : Except ε α} {f : α → Except ε β} {b : β} :
    (m >>= f) = .ok b ↔ ∃ a, m = .ok a ∧ f a = .ok b := by
  refine ⟨bind_eq_ok, ?_⟩
  rintro ⟨a, first, done⟩
  rw [first]
  exact done

theorem refuse_eq_ok_iff {refused : Prop} [Decidable refused] {e : ε} {f : α → Except ε β}
    {m : Except ε β}
    {b : β} : (if refused then .error e >>= f else m) = .ok b ↔ ¬refused ∧ m = .ok b := by
  split
  next holds => exact ⟨nofun, fun h => absurd holds h.1⟩
  next clear => exact ⟨fun done => ⟨clear, done⟩, And.right⟩

theorem mapError_eq_ok_iff {ε' : Type} {outcome : Except ε α} {f : ε → ε'} {a : α} :
    outcome.mapError f = .ok a ↔ outcome = .ok a := by
  cases outcome with
  | error e => exact ⟨nofun, nofun⟩
  | ok b =>
    exact ⟨fun same => congrArg Except.ok (Except.ok.inj same), fun same =>
      congrArg Except.ok (Except.ok.inj same)⟩

def FailsOnly (m : Except ε α) (told : ε → Prop) : Prop := ∀ e, m = .error e → told e

namespace FailsOnly

variable {told : ε → Prop}

theorem ok (a : α) : FailsOnly (.ok a) told := fun _ => nofun

theorem error {e : ε} (holds : told e) : FailsOnly (.error e : Except ε α) told := by
  intro other same
  cases same
  exact holds

theorem bind {m : Except ε α} {f : α → Except ε β} (first : FailsOnly m told)
    (later : ∀ a, FailsOnly (f a) told) : FailsOnly (m >>= f) told := by
  cases m with
  | error e => exact .error (first e rfl)
  | ok a => exact later a

theorem ite {p : Prop} [Decidable p] {m m' : Except ε α} (yes : FailsOnly m told)
    (no : FailsOnly m' told) :
    FailsOnly (if p then m else m') told := by
  split
  · exact yes
  · exact no

theorem foldlM {σ : Type} {f : σ → α → Except ε σ} (step : ∀ s a, FailsOnly (f s a) told)
    (l : List α) (s : σ) :
    FailsOnly (l.foldlM f s) told := by
  induction l generalizing s with
  | nil => exact .ok s
  | cons a rest ih =>
    rw [List.foldlM_cons]
    exact (step s a).bind ih

end FailsOnly

end Except

def Fault.IsArithmetic (fault : Fault) : Prop := ∃ cause, fault = .arithmetic cause

theorem Fault.IsArithmetic.kind {fault : Fault} (arithmetic : fault.IsArithmetic) :
    fault.kind = .arithmetic := by
  obtain ⟨cause, rfl⟩ := arithmetic
  rfl

theorem Fault.IsArithmetic.kind_ne_transfer {fault : Fault} (arithmetic : fault.IsArithmetic) :
    fault.kind ≠ .transfer := by
  rw [arithmetic.kind]
  decide

theorem Fault.IsArithmetic.isOwn {fault : Fault} (arithmetic : fault.IsArithmetic) :
    fault.isOwn = true := by
  rw [Fault.isOwn, code?, arithmetic.kind]
  rfl

namespace Amount

theorem operand_natCast (name : String) (n : Nat) : operand name (.int n) = .ok n := by
  simp [operand, Value.integer, bind, Except.bind]

theorem failsOnly_bounded {operation : Operation} {value cap : Int} :
    Except.FailsOnly (bounded operation value cap) Fault.IsArithmetic := by
  unfold bounded
  split
  · exact .error ⟨_, rfl⟩
  · split
    · exact .error ⟨_, rfl⟩
    · exact .ok _

theorem failsOnly_div {cap : Int} {a b : Nat} :
    Except.FailsOnly (div cap a b) Fault.IsArithmetic := by
  unfold div
  split
  · exact .error ⟨_, rfl⟩
  · exact failsOnly_bounded

theorem failsOnly_mulDiv {cap : Int} {a b d : Nat} :
    Except.FailsOnly (mulDiv cap a b d) Fault.IsArithmetic := by
  unfold mulDiv
  split
  · exact .error ⟨_, rfl⟩
  · exact failsOnly_bounded

end Amount

namespace Curve

variable {cap : Int} {x y n : Nat} {s : Swap}

def along (x y n : Nat) : Swap :=
  let left := x * y / (x + n)
  ⟨y - left, n, x + n, left, x * y, (x + n) * left⟩

theorem along_zero (positive : 0 < x) (y : Nat) : along x y 0 = ⟨0, 0, x, y, x * y, x * y⟩ := by
  simp [along, Nat.mul_div_cancel_left y positive]

theorem left_le (x y n : Nat) : x * y / (x + n) ≤ y :=
  Nat.div_le_of_le_mul (Nat.mul_le_mul_right y (Nat.le_add_right x n))

theorem swap_eq_ok_iff :
    swap cap x y n = .ok s ↔ (0 < x ∧ 0 < y) ∧
      (n = 0 ∨ ((x * y : Nat) : Int) ≤ cap ∧ ((x + n : Nat) : Int) ≤ cap) ∧ s = along x y n := by
  unfold swap
  by_cases empty : (x : Int) ≤ 0 ∨ (y : Int) ≤ 0
  · rw [if_pos empty]
    simp only [reduceCtorEq, false_iff]
    omega
  rw [if_neg empty]
  have held : 0 < x ∧ 0 < y := by omega
  simp only [Int.toNat_natCast]
  by_cases zero : (n : Int) = 0
  · obtain rfl : n = 0 := by omega
    simp [held, along_zero held.1, eq_comm]
  rw [if_neg zero]
  have nonzero : n ≠ 0 := by omega
  simp only [held, nonzero, false_or, true_and]
  constructor
  · intro done
    obtain ⟨before, multiplied, done⟩ := Except.bind_eq_ok done
    obtain ⟨net, given, done⟩ := Except.bind_eq_ok done
    obtain ⟨newIn, added, done⟩ := Except.bind_eq_ok done
    obtain ⟨newOut, divided, done⟩ := Except.bind_eq_ok done
    rw [Amount.operand_natCast] at given
    cases given
    split at done
    next => cases done
    next shrinks =>
      obtain ⟨out, paid, done⟩ := Except.bind_eq_ok done
      split at done
      next =>
        cases done
        obtain ⟨rfl, productFits⟩ := Amount.mul_eq_ok_iff.1 multiplied
        obtain ⟨rfl, sumFits⟩ := Amount.add_eq_ok_iff.1 added
        obtain ⟨-, rfl, -⟩ := Amount.div_eq_ok_iff.1 divided
        obtain ⟨-, rfl, -⟩ := Amount.sub_eq_ok_iff.1 paid
        exact ⟨⟨productFits, sumFits⟩, rfl⟩
      next => cases done
  · rintro ⟨⟨productFits, sumFits⟩, rfl⟩
    have below := left_le x y n
    have small : y - x * y / (x + n) ≤ x * y :=
      Nat.le_trans (Nat.sub_le ..) (Nat.le_mul_of_pos_left y held.1)
    have multiplied : Amount.mul cap x y = .ok (x * y) := Amount.mul_eq_ok_iff.2 ⟨rfl, productFits⟩
    have added : Amount.add cap x n = .ok (x + n) := Amount.add_eq_ok_iff.2 ⟨rfl, sumFits⟩
    have divided : Amount.div cap (x * y) (x + n) = .ok (x * y / (x + n)) :=
      Amount.div_eq_ok_iff.2 ⟨by omega, rfl,
        Int.le_trans (Int.ofNat_le.2 (Nat.div_le_self ..)) productFits⟩
    have paid : Amount.sub cap y (x * y / (x + n)) = .ok (y - x * y / (x + n)) :=
      Amount.sub_eq_ok_iff.2 ⟨below, rfl, Int.le_trans (Int.ofNat_le.2 small) productFits⟩
    -- the guard on the product asks no more than that a remainder is below its divisor
    have rounded := Nat.div_add_mod (x * y) (x + n)
    have cut := Nat.mod_lt (x * y) (show 0 < x + n by omega)
    rw [multiplied, Amount.operand_natCast]
    simp only [bind, Except.bind, added, divided, Nat.not_lt.2 below, if_false, paid]
    rw [if_pos ⟨by omega, by omega⟩]
    rfl

theorem failsOnly_swap : Except.FailsOnly (swap cap x y n) Fault.IsArithmetic := by
  unfold swap
  split
  next => exact .error ⟨_, rfl⟩
  next =>
    split
    next => exact .ok _
    next =>
      refine Amount.failsOnly_bounded.bind fun before => ?_
      rw [Amount.operand_natCast]
      refine (Except.FailsOnly.ok n).bind fun net => ?_
      refine Amount.failsOnly_bounded.bind fun newIn => ?_
      refine Amount.failsOnly_div.bind fun newOut => ?_
      split
      next => exact .error ⟨_, rfl⟩
      next =>
        refine Amount.failsOnly_bounded.bind fun out => ?_
        dsimp only
        split
        next => exact .ok _
        next => exact .error ⟨_, rfl⟩

end Curve

theorem FeeRate.failsOnly_fee {rate : FeeRate} {cap : Int} {amount : Nat} :
    Except.FailsOnly (rate.fee cap amount) Fault.IsArithmetic :=
  Amount.failsOnly_bounded.bind fun _ => Amount.failsOnly_div

namespace Quote

variable {cap : Int} {pool : Pool} {side : Side} {gross : Nat} {rate : FeeRate} {quote : Quote}

def swap (q : Quote) : Curve.Swap :=
  let (newIn, newOut) := q.side.orient q.newBaseReserve q.newQuoteReserve
  ⟨q.receiveAmount, q.netAmount, newIn, newOut, q.productBefore, q.productAfter⟩

/-- A priced trade spends what was asked, less the fee, along the curve. -/
structure Priced (cap : Int) (pool : Pool) (side : Side) (gross : Nat) (quote : Quote) : Prop where
  onSide : quote.side = side
  asked : quote.grossAmount = gross
  spent : quote.netAmount + quote.fee = gross
  swapped : Curve.swap cap (side.orient pool.baseReserve pool.quoteReserve).1
    (side.orient pool.baseReserve pool.quoteReserve).2 quote.netAmount = .ok quote.swap

theorem priced_of_price (priced : price cap pool side gross rate = .ok quote) :
    Priced cap pool side gross quote := by
  unfold price at priced
  split at priced
  next => cases priced
  next =>
    dsimp only at priced
    split at priced
    next => cases priced
    next =>
      simp only [Int.toNat_natCast] at priced
      split at priced
      -- spending nothing takes no fee, but is priced the same way otherwise
      all_goals
        obtain ⟨fee, -, priced⟩ := Except.bind_eq_ok priced
        obtain ⟨net, netted, priced⟩ := Except.bind_eq_ok priced
        obtain ⟨s, swapped, priced⟩ := Except.bind_eq_ok priced
        cases priced
        obtain ⟨covered, rfl, -⟩ := Amount.sub_eq_ok_iff.1 netted
        have spent : gross - fee + fee = gross := Nat.sub_add_cancel covered
        have net : s.netIn = gross - fee := by
          obtain ⟨-, -, rfl⟩ := Curve.swap_eq_ok_iff.1 swapped
          rfl
        cases s
        cases net
        cases side with
        | buy => exact ⟨rfl, rfl, spent, swapped⟩
        | sell => exact ⟨rfl, rfl, spent, swapped⟩

theorem failsOnly_price : Except.FailsOnly (price cap pool side gross rate) Fault.IsArithmetic := by
  unfold price
  split
  next => exact .error ⟨_, rfl⟩
  next =>
    dsimp only
    split
    next => exact .error ⟨_, rfl⟩
    next =>
      split
      next =>
        refine (Except.FailsOnly.ok 0).bind fun fee => Amount.failsOnly_bounded.bind fun net => ?_
        exact Curve.failsOnly_swap.bind fun s => .ok _
      next =>
        refine FeeRate.failsOnly_fee.bind fun fee => Amount.failsOnly_bounded.bind fun net => ?_
        exact Curve.failsOnly_swap.bind fun s => .ok _

structure Balanced (pool : Pool) (side : Side) (gross : Nat) (quote : Quote) : Prop where
  onSide : quote.side = side
  spent : quote.netAmount + quote.fee = gross
  grows : (side.orient quote.newBaseReserve quote.newQuoteReserve).1 =
    (side.orient pool.baseReserve pool.quoteReserve).1 + quote.netAmount
  shrinks : (side.orient quote.newBaseReserve quote.newQuoteReserve).2 + quote.receiveAmount =
    (side.orient pool.baseReserve pool.quoteReserve).2

theorem balanced_of_price (priced : price cap pool side gross rate = .ok quote) :
    Balanced pool side gross quote := by
  obtain ⟨rfl, -, spent, swapped⟩ := priced_of_price priced
  obtain ⟨-, -, along⟩ := Curve.swap_eq_ok_iff.1 swapped
  refine ⟨rfl, spent, congrArg Curve.Swap.newReserveIn along, ?_⟩
  have left : quote.swap.newReserveOut = _ := congrArg Curve.Swap.newReserveOut along
  have received : quote.swap.amountOut = _ := congrArg Curve.Swap.amountOut along
  have below := Curve.left_le (quote.side.orient pool.baseReserve pool.quoteReserve).1
    (quote.side.orient pool.baseReserve pool.quoteReserve).2 quote.netAmount
  show quote.swap.newReserveOut + quote.swap.amountOut = _
  rw [left, received]
  exact Nat.add_sub_cancel' below

end Quote

end LiquidityPools
