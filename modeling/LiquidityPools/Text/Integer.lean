import LiquidityPools.Text.DecimalDigit

/-!
Reading an integer from text: one optional sign, then decimal digits of any script, with single
underscores allowed between digits.
-/

namespace LiquidityPools.Text

/-- The digits after `n`, each perhaps behind one underscore. -/
def moreDigits? (n : Nat) : List Char → Option Nat
  | [] => some n
  | '_' :: c :: rest => (digitValue? c).bind fun d => moreDigits? (10 * n + d) rest
  | c :: rest => (digitValue? c).bind fun d => moreDigits? (10 * n + d) rest

def natural? : List Char → Option Nat
  | [] => none
  | c :: rest => (digitValue? c).bind fun d => moreDigits? d rest

def integer? : List Char → Option Int
  | '+' :: rest => (natural? rest).map Int.ofNat
  | '-' :: rest => (natural? rest).map fun n => -(n : Int)
  | text => (natural? text).map Int.ofNat

example : integer? "1_000".toList = some 1000 := by decide
example : integer? "-0_7".toList = some (-7) := by decide
example : integer? "1__0".toList = none := by decide
example : integer? "1_".toList = none := by decide
example : integer? "٦٤".toList = some 64 := by decide

end LiquidityPools.Text
