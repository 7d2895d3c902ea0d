import LiquidityPools.Fault

/-!
Checked arithmetic on amounts. An amount is a natural number that fits under a cap; a result outside
`[0, cap]` is a fault, never wrapped or cut off. Division is floored.
-/

namespace LiquidityPools

/-- An integer, or the complaint that `name` is none. A truth value is no integer. -/
def Value.integer (name : String) : Value → Except Fault Int
  | .int n => .ok n
  | _ => .error (.notInt name)

def Value.field (name : String) (value : Value) : Except Fault Nat := do
  let n ← value.integer name
  if n < 0 then .error (.negativeField name n) else .ok n.toNat

namespace Amount

def capOf (bits : Nat) : Nat := 1 <<< bits - 1

/-- There is no room for amounts of more bits. -/
def widthLimit : Nat := 0x10000000000

def usualCap : Nat := capOf 128

/-- Runs a computation under a cap, which the fault of an amount above it shows as it was given. -/
def underCap {α : Type} (cap : Cap) (run : Int → Except Fault α) : Except Fault α :=
  (run cap.largest).mapError fun fault =>
    match fault with
    | .arithmetic (.overflow operation value _) => .overflow operation value cap
    | fault => fault

def widthOf : Value → Except Fault { bits : Nat // 0 < bits ∧ bits ≤ widthLimit }
  | .int n =>
    if h : 0 < n then
      if fits : n.toNat ≤ widthLimit then .ok ⟨n.toNat, Int.pos_iff_toNat_pos.1 h, fits⟩
      else .error (.setting (.tooWide n.toNat))
    else .error (.setting (.bits (.int n)))
  | other => .error (.setting (.bits other))

def capOf? (bits : Value) : Except Fault Nat := (widthOf bits).map fun width => capOf width.1

def operand (name : String) (value : Value) : Except Fault Nat := do
  let n ← value.integer name
  if n < 0 then .error (.arithmetic (.negativeOperand name n)) else .ok n.toNat

def bounded (operation : Operation) (value cap : Int) : Except Fault Nat :=
  if value < 0 then .error (.arithmetic (.underflow operation value))
  else if cap < value then .error (.arithmetic (.overflow operation value (.int cap)))
  else .ok value.toNat

def add (cap : Int) (a b : Nat) : Except Fault Nat := bounded .add (a + b) cap

def sub (cap : Int) (a b : Nat) : Except Fault Nat := bounded .sub (a - b) cap

def mul (cap : Int) (a b : Nat) : Except Fault Nat := bounded .mul (a * b) cap

def div (cap : Int) (a b : Nat) : Except Fault Nat :=
  if b = 0 then .error (.arithmetic .divisionByZero) else bounded .div ((a / b : Nat) : Int) cap

/-- `a * b / d`, where the product may exceed the cap. -/
def mulDiv (cap : Int) (a b d : Nat) : Except Fault Nat :=
  if d = 0 then .error (.arithmetic .divisionByZero)
  else bounded .mulDiv ((a * b / d : Nat) : Int) cap

def evaluate (operation : Operation) (cap : Int) (a b d : Value) : Except Fault Nat := do
  let x ← operand "a" a
  let y ← operand "b" b
  match operation with
  | .add => add cap x y
  | .sub => sub cap x y
  | .mul => mul cap x y
  | .div => div cap x y
  | .mulDiv => mulDiv cap x y (← operand "denominator" d)

theorem bounded_eq_ok_iff {operation : Operation} {value cap : Int} {n : Nat} :
    bounded operation value cap = .ok n ↔ value = n ∧ (n : Int) ≤ cap := by
  unfold bounded
  split
  · simp only [reduceCtorEq, false_iff]; omega
  · split
    · simp only [reduceCtorEq, false_iff]; omega
    · simp only [Except.ok.injEq]; omega

theorem add_eq_ok_iff {cap : Int} {a b n : Nat} :
    add cap a b = .ok n ↔ n = a + b ∧ (n : Int) ≤ cap := by
  rw [add, bounded_eq_ok_iff]; omega

theorem sub_eq_ok_iff {cap : Int} {a b n : Nat} :
    sub cap a b = .ok n ↔ b ≤ a ∧ n = a - b ∧ (n : Int) ≤ cap := by
  rw [sub, bounded_eq_ok_iff]; omega

theorem mul_eq_ok_iff {cap : Int} {a b n : Nat} :
    mul cap a b = .ok n ↔ n = a * b ∧ (n : Int) ≤ cap := by
  rw [mul, bounded_eq_ok_iff]
  constructor
  · rintro ⟨h, bound⟩
    exact ⟨(Int.ofNat.inj (by simpa using h)).symm, bound⟩
  · rintro ⟨rfl, bound⟩
    exact ⟨by simp, bound⟩

theorem div_eq_ok_iff {cap : Int} {a b n : Nat} :
    div cap a b = .ok n ↔ b ≠ 0 ∧ n = a / b ∧ (n : Int) ≤ cap := by
  unfold div
  split
  · simp_all
  · rw [bounded_eq_ok_iff]; omega

theorem mulDiv_eq_ok_iff {cap : Int} {a b d n : Nat} :
    mulDiv cap a b d = .ok n ↔ d ≠ 0 ∧ n = a * b / d ∧ (n : Int) ≤ cap := by
  unfold mulDiv
  split
  · simp_all
  · rw [bounded_eq_ok_iff]; omega

end Amount

end LiquidityPools
