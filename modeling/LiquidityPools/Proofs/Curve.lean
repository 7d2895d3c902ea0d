import Mathlib.Data.Rat.Floor
import Mathlib.Tactic.Linarith
import LiquidityPools.Proofs.Quote

/-!
The curve in closed form. A trade receives what its input is worth of the other reserve, rounded up,
and it is refused for an empty reserve, for a product or a sum that is too wide, or for a negative
input; no check that comes after the sum ever fails. Pieces of a trade, each on the reserves that
the one before has left, may round up once each, so that they receive at least what the whole trade
would, and more by less than one unit for each piece.
-/

namespace LiquidityPools.Curve

variable {cap x y n : Int} {s : Swap}

section Exactness

def refusal? (cap x y n : Int) : Option ArithmeticFault :=
  if x ≤ 0 ∨ y ≤ 0 then some (.emptyReserve x y)
  else if n = 0 then none
  else if cap < x * y then some (.overflow .mul (x * y) (.int cap))
  else if n < 0 then some (.negativeOperand "b" n)
  else if cap < x + n then some (.overflow .add (x + n) (.int cap))
  else none

theorem refusal?_eq_none_iff : refusal? cap x y n = none ↔
    (0 < x ∧ 0 < y) ∧ (n = 0 ∨ 0 < n ∧ x * y ≤ cap ∧ x + n ≤ cap) := by
  unfold refusal?
  split_ifs with empty idle wide negative high
  all_goals simp only [false_iff, true_iff]
  all_goals generalize x * y = product at *
  all_goals omega

/-- The complaints of the checks that come after the sum: of the quotient, of what is paid out of
the reserve, of the reserve that is left, and of the product. -/
def IsLate : ArithmeticFault → Prop
  | .divisionByZero | .outputGrows _ _ | .productOutOfBounds _ _ => True
  | .underflow operation _ | .overflow operation _ _ => operation = .div ∨ operation = .sub
  | _ => False

theorem not_isLate_of_refusal {cause : ArithmeticFault}
    (refused : refusal? cap x y n = some cause) :
    ¬ IsLate cause := by
  unfold refusal? at refused
  split_ifs at refused
  all_goals
    cases refused
    simp [IsLate]

theorem bounded_of_wide {operation : Operation} {value : Int} (nonneg : 0 ≤ value)
    (wide : cap < value) :
    Amount.bounded operation value cap =
      .error (.arithmetic (.overflow operation value (.int cap))) := by
  rw [Amount.bounded, if_neg (Int.not_lt.2 nonneg), if_pos wide]

theorem swap_of_refused {cause : ArithmeticFault} (refused : refusal? cap x y n = some cause) :
    swap cap x y n = .error (.arithmetic cause) := by
  unfold refusal? at refused
  by_cases empty : x ≤ 0 ∨ y ≤ 0
  · rw [if_pos empty] at refused
    cases refused
    rw [swap, if_pos empty]
  rw [if_neg empty] at refused
  lift x to ℕ using by omega
  lift y to ℕ using by omega
  rw [swap, if_neg empty]
  simp only [Int.toNat_natCast]
  split_ifs at refused ⊢ with idle wide negative high
  · cases refused
    rw [Amount.mul,
      bounded_of_wide (Int.mul_nonneg (Int.natCast_nonneg x) (Int.natCast_nonneg y)) wide]
    rfl
  all_goals
    have multiplied : Amount.mul cap x y = .ok (x * y) :=
      Amount.mul_eq_ok_iff.2 ⟨rfl, by rw [Int.natCast_mul]; exact Int.not_lt.1 wide⟩
    rw [multiplied]
  · cases refused
    simp [Amount.operand, Value.integer, negative, bind, Except.bind]
  · cases refused
    lift n to ℕ using Int.not_lt.1 negative
    have added : Amount.add cap x n = .error _ := bounded_of_wide (Int.natCast_nonneg (x + n)) high
    simp only [Amount.operand_natCast, bind, Except.bind, added]

theorem swap_of_admitted (admitted : refusal? cap x y n = none) :
    swap cap x y n = .ok (along x.toNat y.toNat n.toNat) := by
  obtain ⟨held, room⟩ := refusal?_eq_none_iff.1 admitted
  lift x to ℕ using by omega
  lift y to ℕ using by omega
  lift n to ℕ using by omega
  simp only [Int.toNat_natCast]
  exact swap_eq_ok_iff.2 ⟨by omega, by push_cast; omega, rfl⟩

structure Exact (x y n : Int) (s : Swap) : Prop where
  amountOut : (s.amountOut : Int) = ⌈(y * n : ℚ) / (x + n)⌉
  amountOut_pos : 0 < n → 1 ≤ s.amountOut
  amountOut_le : s.amountOut ≤ y
  netIn : s.netIn = n
  newReserveIn : s.newReserveIn = x + n
  newReserveOut : s.newReserveOut = y - s.amountOut
  productBefore : s.productBefore = x * y
  productAfter : s.productAfter = s.newReserveIn * s.newReserveOut
  product_gt : (s.productBefore : Int) - s.newReserveIn < s.productAfter
  product_le : s.productAfter ≤ s.productBefore

theorem amountOut_along {x : ℕ} (held : 0 < x) (y n : ℕ) :
    ((along x y n).amountOut : Int) = ⌈(y * n : ℚ) / (x + n)⌉ := by
  have positive : (0 : ℚ) < x + n := by positivity
  have whole : x * y / (x + n) * (x + n) ≤ x * y := Nat.div_mul_le_self ..
  have next : x * y < (x * y / (x + n) + 1) * (x + n) :=
    Nat.lt_mul_of_div_lt (Nat.lt_succ_self _) (by omega)
  have below := left_le x y n
  symm
  rw [Int.ceil_eq_iff, along]
  simp only
  generalize x * y / (x + n) = left at *
  rw [Int.cast_natCast, Nat.cast_sub below, lt_div_iff₀ positive, div_le_iff₀ positive]
  have whole : (left : ℚ) * (x + n) ≤ x * y := by exact_mod_cast whole
  have next : (x * y : ℚ) < (left + 1) * (x + n) := by exact_mod_cast next
  constructor <;> linarith

theorem exact_along {x y n : ℕ} (held : 0 < x ∧ 0 < y) : Exact x y n (along x y n) where
  amountOut := amountOut_along held.1 y n
  amountOut_pos moves := by
    have grows : x * y < (x + n) * y := Nat.mul_lt_mul_of_pos_right (by omega) held.2
    have paid : x * y / (x + n) < y := Nat.div_lt_of_lt_mul grows
    simp only [along]
    omega
  amountOut_le := Int.ofNat_le.2 (Nat.sub_le ..)
  netIn := rfl
  newReserveIn := Int.natCast_add ..
  newReserveOut := by
    have below := left_le x y n
    simp only [along]
    omega
  productBefore := Int.natCast_mul ..
  productAfter := rfl
  product_gt := by
    have rounded := Nat.div_add_mod (x * y) (x + n)
    have cut := Nat.mod_lt (x * y) (show 0 < x + n by omega)
    simp only [along]
    omega
  product_le := Nat.mul_div_le ..

theorem Exact.product (exact : Exact x y n s) :
    (s.newReserveIn * s.newReserveOut : Int) ≤ x * y ∧
      x * y < s.newReserveIn * s.newReserveOut + s.newReserveIn := by
  have before := exact.productBefore
  have after : (s.productAfter : Int) = s.newReserveIn * s.newReserveOut := by
    rw [exact.productAfter, Int.natCast_mul]
  have lost := exact.product_gt
  have kept := exact.product_le
  omega

theorem exact_of_swap (done : swap cap x y n = .ok s) : Exact x y n s := by
  cases refused : refusal? cap x y n with
  | some cause =>
    rw [swap_of_refused refused] at done
    cases done
  | none =>
    rw [swap_of_admitted refused] at done
    cases done
    obtain ⟨held, room⟩ := refusal?_eq_none_iff.1 refused
    lift x to ℕ using by omega
    lift y to ℕ using by omega
    lift n to ℕ using by omega
    exact exact_along (by omega)

theorem exists_swap_iff : (∃ s, swap cap x y n = .ok s) ↔
    (0 < x ∧ 0 < y) ∧ (n = 0 ∨ 0 < n ∧ x * y ≤ cap ∧ x + n ≤ cap) := by
  rw [← refusal?_eq_none_iff]
  cases refused : refusal? cap x y n with
  | some cause => simp [swap_of_refused refused]
  | none => simp [swap_of_admitted refused]

/-- A trade is made exactly if both reserves hold something and, unless nothing is spent, the input
is positive and neither the product of the reserves nor the new reserve is too wide. It pays the
exact quotient, rounded up, and keeps the product within one new reserve below what it was. Where it
is not made, one of the checks up to the sum is what refuses it; the later ones never do. -/
theorem swap_exact (cap x y n : Int) :
    ((∃ s, swap cap x y n = .ok s) ↔
        (0 < x ∧ 0 < y) ∧ (n = 0 ∨ 0 < n ∧ x * y ≤ cap ∧ x + n ≤ cap)) ∧
      (∀ s, swap cap x y n = .ok s → Exact x y n s) ∧
      ∀ fault, swap cap x y n = .error fault →
        ∃ cause, refusal? cap x y n = some cause ∧ fault = .arithmetic cause ∧ ¬ IsLate cause := by
  refine ⟨exists_swap_iff, fun s => exact_of_swap, fun fault failed => ?_⟩
  cases refused : refusal? cap x y n with
  | some cause =>
    rw [swap_of_refused refused] at failed
    cases failed
    exact ⟨cause, rfl, rfl, not_isLate_of_refusal refused⟩
  | none =>
    rw [swap_of_admitted refused] at failed
    cases failed

end Exactness

section Splitting

variable {pieces : List Int} {swaps : List Swap}

def swapEach (cap x y : Int) : List Int → Except Fault (List Swap)
  | [] => pure []
  | n :: rest => do
    let s ← swap cap x y n
    let others ← swapEach cap s.newReserveIn s.newReserveOut rest
    pure (s :: others)

def received (swaps : List Swap) : Nat := (swaps.map (·.amountOut)).sum

theorem received_cons (s : Swap) (swaps : List Swap) :
    received (s :: swaps) = s.amountOut + received swaps := by
  rw [received, List.map_cons, List.sum_cons, received]

theorem swapEach_cons_eq_ok (done : swapEach cap x y (n :: pieces) = .ok swaps) :
    ∃ s others, swap cap x y n = .ok s ∧
      swapEach cap s.newReserveIn s.newReserveOut pieces = .ok others ∧ swaps = s :: others := by
  obtain ⟨s, first, done⟩ := Except.bind_eq_ok done
  obtain ⟨others, rest, done⟩ := Except.bind_eq_ok done
  cases done
  exact ⟨s, others, first, rest, rfl⟩

/-- Where pieces of a trade end: on the whole input, and on an output reserve that is the exact one
but for less than one unit for each piece. -/
structure Drifts (cap x y : Int) (pieces : List Int) (swaps : List Swap) : Prop where
  nonneg : 0 ≤ pieces.sum
  fits : pieces.sum = 0 ∨ x * y ≤ cap ∧ x + pieces.sum ≤ cap
  newReserveIn : swaps.getLast?.elim x (fun last => last.newReserveIn) = x + pieces.sum
  product_le : (y - received swaps) * (x + pieces.sum) ≤ x * y
  product_ge : x * y + pieces.length ≤ (y - received swaps + pieces.length) * (x + pieces.sum)

theorem drifts_of_swapEach (done : swapEach cap x y pieces = .ok swaps) :
    Drifts cap x y pieces swaps := by
  induction pieces generalizing x y swaps with
  | nil =>
    cases done
    refine ⟨Int.le_refl 0, .inl rfl, ?_, ?_, ?_⟩
    all_goals simp [received, Int.mul_comm]
  | cons n rest ih =>
    obtain ⟨s, others, first, later, rfl⟩ := swapEach_cons_eq_ok done
    obtain ⟨-, room⟩ := exists_swap_iff.1 ⟨s, first⟩
    have step := exact_of_swap first
    have drifts := ih later
    have nonneg := drifts.nonneg
    have grown := step.newReserveIn
    have shrunk := step.newReserveOut
    refine ⟨?_, ?_, ?_, ?_, ?_⟩
    · rw [List.sum_cons]
      omega
    · rw [List.sum_cons]
      have fits := drifts.fits
      rw [grown, shrunk] at fits
      rcases room with rfl | room
      · have nothing : (s.amountOut : Int) = 0 := by simp [step.amountOut]
        rwa [nothing, Int.sub_zero, Int.add_zero, ← Int.zero_add rest.sum] at fits
      · omega
    · rw [List.sum_cons, ← Int.add_assoc, ← grown, ← drifts.newReserveIn, List.getLast?_cons]
      cases others.getLast? <;> rfl
    · rw [received_cons, List.sum_cons]
      calc (y - ((s.amountOut + received others : ℕ) : Int)) * (x + (n + rest.sum))
          = (s.newReserveOut - received others) * (s.newReserveIn + rest.sum) := by
            rw [grown, shrunk]
            push_cast
            ring
        _ ≤ s.newReserveIn * s.newReserveOut := drifts.product_le
        _ ≤ x * y := step.product.1
    · rw [received_cons, List.sum_cons, List.length_cons]
      -- the step loses less than its new input reserve, which is no more than the last one
      calc x * y + ((rest.length + 1 : ℕ) : Int)
          ≤ s.newReserveIn * s.newReserveOut + rest.length + s.newReserveIn := by
            have lost := step.product.2
            push_cast
            omega
        _ ≤ (s.newReserveOut - received others + rest.length) * (s.newReserveIn + rest.sum) +
              (s.newReserveIn + rest.sum) := by
            have later := drifts.product_ge
            omega
        _ = (y - ((s.amountOut + received others : ℕ) : Int) + ((rest.length + 1 : ℕ) : Int)) *
              (x + (n + rest.sum)) := by
            rw [grown, shrunk]
            push_cast
            ring

theorem Drifts.exists_whole (drifts : Drifts cap x y pieces swaps) (held : 0 < x ∧ 0 < y) :
    ∃ whole, swap cap x y pieces.sum = .ok whole := by
  refine exists_swap_iff.2 ⟨held, ?_⟩
  have nonneg := drifts.nonneg
  have fits := drifts.fits
  omega

/-- The reserves that the whole trade and its pieces leave are both within a unit for each piece of
the exact one, and so of each other. -/
theorem Drifts.amountOut {whole : Swap} (drifts : Drifts cap x y pieces swaps)
    (several : pieces ≠ []) (exact : Exact x y pieces.sum whole) (held : 0 < x) :
    whole.amountOut ≤ received swaps ∧ received swaps ≤ whole.amountOut + (pieces.length - 1) := by
  have counted : 0 < pieces.length := List.length_pos_of_ne_nil several
  obtain ⟨kept, lost⟩ := exact.product
  have least := drifts.product_le
  have most := drifts.product_ge
  have positive : 0 < x + pieces.sum := by
    have nonneg := drifts.nonneg
    omega
  rw [exact.newReserveIn, exact.newReserveOut] at kept lost
  generalize x + pieces.sum = newIn at *
  have low : y - received swaps < y - whole.amountOut + 1 := by
    refine Int.lt_of_mul_lt_mul_right ?_ (Int.le_of_lt positive)
    linarith
  have high : y - whole.amountOut < y - received swaps + pieces.length := by
    refine Int.lt_of_mul_lt_mul_right ?_ (Int.le_of_lt positive)
    linarith
  omega

/-- Any number of pieces can be traded as one: the whole trade is made if each of them is, and ends
on the same input reserve. The pieces receive at least as much, and more by at most one unit for
each but one. -/
theorem split_within_pieces (several : pieces ≠ []) (done : swapEach cap x y pieces = .ok swaps) :
    ∃ whole, swap cap x y pieces.sum = .ok whole ∧
      swaps.getLast?.map (·.newReserveIn) = some whole.newReserveIn ∧
      whole.amountOut ≤ received swaps ∧
        received swaps ≤ whole.amountOut + (pieces.length - 1) := by
  have drifts := drifts_of_swapEach done
  obtain ⟨held, last, ends⟩ : (0 < x ∧ 0 < y) ∧ ∃ last, swaps.getLast? = some last := by
    obtain ⟨n, rest, rfl⟩ := List.exists_cons_of_ne_nil several
    obtain ⟨s, others, first, -, rfl⟩ := swapEach_cons_eq_ok done
    exact ⟨(exists_swap_iff.1 ⟨s, first⟩).1, _, List.getLast?_cons⟩
  obtain ⟨whole, made⟩ := drifts.exists_whole held
  have exact := exact_of_swap made
  refine ⟨whole, made, ?_, drifts.amountOut several exact held.1⟩
  have same := drifts.newReserveIn
  rw [ends, Option.elim_some, ← exact.newReserveIn] at same
  rw [ends, Option.map_some, Int.ofNat.inj same]

theorem split_threeUnits :
    swapEach 1000 100 10 [1, 1, 1] = .ok
        [⟨1, 1, 101, 9, 1000, 909⟩, ⟨1, 1, 102, 8, 909, 816⟩, ⟨1, 1, 103, 7, 816, 721⟩] ∧
      ∃ whole, swap 1000 100 10 3 = .ok whole ∧ whole.newReserveIn = 103 ∧
        whole.amountOut ≤ 3 ∧ 3 ≤ whole.amountOut + 2 := by
  have done : swapEach 1000 100 10 [1, 1, 1] = .ok
      [⟨1, 1, 101, 9, 1000, 909⟩, ⟨1, 1, 102, 8, 909, 816⟩, ⟨1, 1, 103, 7, 816, 721⟩] := rfl
  obtain ⟨whole, made, ends, least, most⟩ := split_within_pieces (List.cons_ne_nil _ _) done
  exact ⟨done, whole, made, (Option.some.inj ends).symm, least, most⟩

end Splitting

end LiquidityPools.Curve
