import LiquidityPools.Number.Double

/-!
Numbers as they compare: integers and doubles by their exact values, so that an integer never counts
as equal to the double that merely rounds to it. What is no number differs from everything, itself
included, and is neither below nor above.
-/

namespace LiquidityPools.Number

inductive Quantity where
  | ratio (numerator : Int) (denominator : Nat)
  | infinite (negative : Bool)
  | nan
  deriving Repr

namespace Quantity

def ofInt (n : Int) : Quantity := .ratio n 1

def ofDouble : Double → Quantity
  | .finite negative bits =>
    let (n, d) := ratioOf bits
    .ratio (if negative then -(n : Int) else n) d
  | .infinite negative => .infinite negative
  | .nan => .nan

def eq : Quantity → Quantity → Bool
  | .ratio m d, .ratio n e => m * e == n * d
  | .infinite s, .infinite t => s == t
  | _, _ => false

def lt : Quantity → Quantity → Bool
  | .ratio m d, .ratio n e => m * e < n * d
  | .ratio .., .infinite t => !t
  | .infinite s, .ratio .. => s
  | .infinite s, .infinite t => s && !t
  | _, _ => false

theorem eq_ofInt (m n : Int) : (ofInt m).eq (ofInt n) = (m == n) := by simp [ofInt, eq]

theorem lt_ofInt (m n : Int) : (ofInt m).lt (ofInt n) = decide (m < n) := by simp [ofInt, lt]

end Quantity

end LiquidityPools.Number
