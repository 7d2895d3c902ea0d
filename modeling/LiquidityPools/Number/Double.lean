import LiquidityPools.Text.Quoted

/-!
Doubles, as the bits of their IEEE 754 form. The double nearest to a ratio of naturals: the ratio is
scaled to 53 binary digits, or to fewer where it lies below the normal range, and rounded once, a
tie to the even neighbour. With `q` units of `2 ^ e` the bits are `(e + 1074) * 2 ^ 52 + q` in both
ranges, and a `q` that rounds up to `2 ^ 53` runs over into the next exponent. Back from the bits, a
magnitude is an exact fraction.
-/

namespace LiquidityPools.Number

def roundDiv (n d : Nat) : Nat :=
  let q := n / d
  let twice := 2 * (n % d)
  if twice < d ∨ (twice = d ∧ q % 2 = 0) then q else q + 1

def scaled (n d : Nat) : (e : Int) → Nat × Nat
  | .ofNat up => (n, d <<< up)
  | .negSucc down => (n <<< (down + 1), d)

/-- The unit of the last place of `n / d`. -/
def unitExponent (n d : Nat) : Int :=
  let low : Int := (n.log2 : Int) - d.log2 - 53
  let (p, q) := scaled n d low
  max (-1074) (if p < q <<< 53 then low else low + 1)

def doubleBits (n d : Nat) : Nat :=
  if n = 0 then 0 else
    let e := unitExponent n d
    let (p, q) := scaled n d e
    (e + 1074).toNat <<< 52 + roundDiv p q

def doubleHex (n d : Nat) : String := String.ofList (Text.hexFixed 16 (doubleBits n d))

def ratioOf (bits : Nat) : Nat × Nat :=
  let place := bits >>> 52
  if place = 0 then (bits, 1 <<< 1074)
  else scaled (bits % (1 <<< 52) + (1 <<< 52)) 1 (1075 - (place : Int))

/-- A double; a finite one by its sign and the bits of its magnitude. -/
inductive Double where
  | finite (negative : Bool) (bits : Nat)
  | infinite (negative : Bool)
  | nan
  deriving DecidableEq, Repr, Inhabited

def infinityBits : Nat := 0x7FF <<< 52

def Double.ofBits (negative : Bool) (bits : Nat) : Double :=
  if bits < infinityBits then .finite negative bits else .infinite negative

def Double.ofRatio (negative : Bool) (n d : Nat) : Double := .ofBits negative (doubleBits n d)

def Double.ofNat? (n : Nat) : Option Double :=
  if doubleBits n 1 < infinityBits then some (.finite false (doubleBits n 1)) else none

def Double.negate : Double → Double
  | .finite negative bits => .finite (!negative) bits
  | .infinite negative => .infinite (!negative)
  | .nan => .nan

def withSign (negative : Bool) (n : Nat) : Int := if negative then -(n : Int) else n

/-- The sum, rounded once; a zero is negative only as the sum of two such zeros. -/
def Double.plus : Double → Double → Double
  | .finite s a, .finite t b =>
    let (m, d) := ratioOf a
    let (n, e) := ratioOf b
    let sum := withSign s (m * e) + withSign t (n * d)
    if sum = 0 then .finite (s && t) 0 else .ofRatio (sum < 0) sum.natAbs (d * e)
  | .infinite s, .infinite t => if s = t then .infinite s else .nan
  | .infinite s, .finite .. | .finite .., .infinite s => .infinite s
  | .nan, _ | _, .nan => .nan

def Double.times : Double → Double → Double
  | .finite s a, .finite t b =>
    let (m, d) := ratioOf a
    let (n, e) := ratioOf b
    .ofRatio (s != t) (m * n) (d * e)
  | .infinite s, .infinite t => .infinite (s != t)
  | .infinite s, .finite t b | .finite t b, .infinite s =>
    if b = 0 then .nan else .infinite (s != t)
  | .nan, _ | _, .nan => .nan

example : (Double.ofRatio false 3 4).plus (.ofRatio true 1 2) = .ofRatio false 1 4 := by decide
example : (Double.ofRatio true 3 4).times (.infinite false) = .infinite true := by decide
example : doubleBits 1 1 = 0x3FF0000000000000 := by decide
example : doubleBits 1 3 = 0x3FD5555555555555 := by decide
example : ratioOf 0x3FF8000000000000 = (3 <<< 51, 1 <<< 52) := by decide

end LiquidityPools.Number
