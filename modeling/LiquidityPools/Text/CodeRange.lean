/-!
Classes of characters given as ranges of code points.
-/

namespace LiquidityPools.Text

/-- Both ends belong to the range. -/
abbrev CodeRange := Nat × Nat

def CodeRange.covers (range : CodeRange) (c : Char) : Bool :=
  range.1 ≤ c.toNat && c.toNat ≤ range.2

def inRanges (ranges : List CodeRange) (c : Char) : Bool :=
  ranges.any (·.covers c)

theorem inRanges_iff {ranges : List CodeRange} {c : Char} :
    inRanges ranges c = true ↔ ∃ r ∈ ranges, r.1 ≤ c.toNat ∧ c.toNat ≤ r.2 := by
  simp [inRanges, CodeRange.covers]

end LiquidityPools.Text
