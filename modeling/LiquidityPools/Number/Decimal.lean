import LiquidityPools.Number.Double

/-!
Doubles in decimal. A decimal text stands for the double nearest to it. The other way, a double is
written with the fewest digits that read back as it, and among those with the ones nearest to its
value: of each number of digits only the two neighbours of the value have to be tried.
-/

namespace LiquidityPools.Number

def timesTenTo (n : Nat) : (exponent : Int) → Nat × Nat
  | .ofNat up => (n * Nat.pow 10 up, 1)
  | .negSucc down => (n, Nat.pow 10 (down + 1))

/-- The bits of the double nearest to `n * 10 ^ exponent`. Far out of range the power of ten is not
worked out: `n` has at most `n.log2 / 3 + 1` digits. -/
def decimalBits (n : Nat) (exponent : Int) : Nat :=
  if n = 0 || exponent + (n.log2 / 3 + 1 : Nat) < -400 then 0
  else if 400 < exponent then infinityBits
  else
    let (p, q) := timesTenTo n exponent
    doubleBits p q

section Reading

def natOf (digits : List Char) : Nat := digits.foldl (fun n c => 10 * n + (c.toNat - '0'.toNat)) 0

def takeSign : List Char → Bool × List Char
  | '-' :: rest => (true, rest)
  | '+' :: rest => (false, rest)
  | text => (false, text)

def exponentOf? : List Char → Option Int
  | [] => some 0
  | mark :: rest =>
    let (negative, digits) := takeSign rest
    if (mark == 'e' || mark == 'E') && !digits.isEmpty && digits.all Char.isDigit then
      some (if negative then -(natOf digits : Int) else natOf digits)
    else none

def magnitudeBits? (text : List Char) : Option Nat :=
  let whole := text.takeWhile Char.isDigit
  let after := text.dropWhile Char.isDigit
  let (fraction, tail) := match after with
    | '.' :: rest => (rest.takeWhile Char.isDigit, rest.dropWhile Char.isDigit)
    | _ => ([], after)
  if whole.isEmpty && fraction.isEmpty then none
  else (exponentOf? tail).map fun exponent =>
    decimalBits (natOf (whole ++ fraction)) (exponent - fraction.length)

def Double.ofText? (text : List Char) : Option Double :=
  let (negative, rest) := takeSign text
  let name := String.ofList (rest.map Char.toLower)
  if name = "nan" then some .nan
  else if name = "inf" || name = "infinity" then some (.infinite negative)
  else (magnitudeBits? rest).map (.ofBits negative)

end Reading

section Writing

def decimalLength (n : Nat) : Nat := (Nat.toDigits 10 n).length

/-- How many places stand before the point of `n / d`; below a tenth, minus the zeros behind it. -/
def placesOf (n d : Nat) : Int :=
  if d ≤ n then decimalLength (n / d) else 1 - (decimalLength ((d - 1) / n) : Int)

/-- A decimal of this many digits that reads back as the bits, the nearer of two. -/
def withDigits? (bits : Nat) (places : Int) (count : Nat) : Option (Nat × Int) :=
  let exponent := places - count
  let (n, d) := ratioOf bits
  let (x, y) := timesTenTo 1 exponent
  let below := n * y / (d * x)
  let above := 2 * (n * y % (d * x))
  let rounded := if above < d * x || (above == d * x && below % 2 == 0) then below else below + 1
  ([rounded, below, below + 1].find? fun m => decimalBits m exponent == bits).map (·, exponent)

/-- The digits of a positive magnitude, and how many of them stand before the point. Seventeen
digits are always enough. -/
def shortest (bits : Nat) : List Char × Int :=
  let (n, d) := ratioOf bits
  let places := placesOf n d
  let (m, exponent) :=
    ((List.range 17).findSome? fun k => withDigits? bits places (k + 1)).getD (0, 0)
  let digits := Nat.toDigits 10 m
  ((digits.reverse.dropWhile (· == '0')).reverse, exponent + digits.length)

def exponentText (exponent : Int) : List Char :=
  let digits := Nat.toDigits 10 exponent.natAbs
  'e' :: (if exponent < 0 then '-' else '+') ::
    (if digits.length < 2 then '0' :: digits else digits)

/-- Digits with a point, from a ten-thousandth up to sixteen places before the point; beyond, one
digit before the point and an exponent. -/
def layOut (digits : List Char) (places : Int) : List Char :=
  if places ≤ -4 || 16 < places then
    match digits with
    | [] => []
    | [d] => d :: exponentText (places - 1)
    | d :: rest => d :: '.' :: rest ++ exponentText (places - 1)
  else if places ≤ 0 then '0' :: '.' :: List.replicate (-places).toNat '0' ++ digits
  else
    let whole := digits.take places.toNat ++ List.replicate (places.toNat - digits.length) '0'
    let fraction := digits.drop places.toNat
    whole ++ '.' :: (if fraction.isEmpty then ['0'] else fraction)

def magnitudeText (bits : Nat) : List Char :=
  if bits = 0 then ['0', '.', '0']
  else
    let (digits, places) := shortest bits
    layOut digits places

def Double.text : Double → String
  | .nan => "nan"
  | .infinite negative => if negative then "-inf" else "inf"
  | .finite negative bits =>
    String.ofList (if negative then '-' :: magnitudeText bits else magnitudeText bits)

end Writing

example : magnitudeText 0x3FF8000000000000 = ['1', '.', '5'] := by decide +kernel
example : magnitudeText 1 = ['5', 'e', '-', '3', '2', '4'] := by decide +kernel
example : decimalBits 1 999 = infinityBits := by decide

end LiquidityPools.Number
