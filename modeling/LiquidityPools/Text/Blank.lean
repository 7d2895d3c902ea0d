import LiquidityPools.Text.CodeRange

/-!
Blank characters: the spaces of every script, the line and paragraph separators, and the control
characters that separate lines, fields or records. `strip` takes them off both ends of a text.
-/

namespace LiquidityPools.Text

def blankRanges : List CodeRange :=
  [(0x09, 0x0D), (0x1C, 0x20), (0x85, 0x85), (0xA0, 0xA0), (0x1680, 0x1680), (0x2000, 0x200A),
    (0x2028, 0x2029), (0x202F, 0x202F), (0x205F, 0x205F), (0x3000, 0x3000)]

def isBlank (c : Char) : Bool := inRanges blankRanges c

def strip (text : List Char) : List Char :=
  ((text.dropWhile isBlank).reverse.dropWhile isBlank).reverse

theorem strip_eq_self {text : List Char} (first : ∀ c ∈ text.head?, isBlank c = false)
    (last : ∀ c ∈ text.getLast?, isBlank c = false) : strip text = text := by
  have keep (l : List Char) (h : ∀ c ∈ l.head?, isBlank c = false) : l.dropWhile isBlank = l := by
    cases l with
    | nil => rfl
    | cons c r => simp [List.dropWhile, h c rfl]
  rw [strip, keep text first, keep text.reverse (by simpa using last), List.reverse_reverse]

end LiquidityPools.Text
