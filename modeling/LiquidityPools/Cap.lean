import LiquidityPools.Value

/-!
Caps on amounts. A cap is an integer, or a truth value, which counts as one or zero and keeps its
own spelling in messages. Data of any other kind cannot be held against amounts, and lets none pass.
-/

namespace LiquidityPools

inductive Cap where
  | int (n : Int)
  | truth (b : Bool)
  | other (kind : String)
  deriving DecidableEq, Repr

instance : Inhabited Cap := ⟨.int 0⟩

namespace Cap

def ofValue : Value → Cap
  | .int n => .int n
  | .bool b => .truth b
  | value => .other value.kindName

/-- The largest amount that passes; below zero, none does. -/
def largest : Cap → Int
  | .int n => n
  | .truth b => b.toInt
  | .other _ => -1

def text : Cap → String
  | .int n => toString n
  | .truth b => Value.boolText b
  | .other kind => kind

example : (ofValue (.bool true)).largest = 1 ∧ (ofValue (.bool true)).text = "True" := by decide
example : (ofValue (.str "5")).largest = -1 := by decide

end Cap

end LiquidityPools
