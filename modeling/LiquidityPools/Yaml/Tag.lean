import LiquidityPools.Text.Base64
import LiquidityPools.Text.Blank
import LiquidityPools.Text.Integer
import LiquidityPools.Yaml.Scalar.Plain
import LiquidityPools.Yaml.Scalar.Timestamp
import LiquidityPools.Fault

/-!
What a scalar stands for. Its tag says which kind of data it is; one that is written plainly, and
without a tag, gets its tag from its form: null, a truth value, an integer in one of five notations,
a float, a date or moment, or else a text. Reading the text under a tag can fail, since not every
text of the right form names data of that kind.
-/

namespace LiquidityPools.Yaml

inductive Tag where
  | null | bool | int | float | binary | timestamp | str
  /-- The key under which further maps are merged in. -/
  | merge
  /-- The key that stands for a map's own value; elsewhere no data. -/
  | ownValue
  | seq | map | set | orderedMap | pairs
  | unknown
  deriving DecidableEq, Repr

namespace Tag

def stem : String := "tag:yaml.org,2002:"

def names : List (String × Tag) :=
  [("null", .null), ("bool", .bool), ("int", .int), ("float", .float), ("binary", .binary),
    ("timestamp", .timestamp), ("str", .str), ("merge", .merge), ("value", .ownValue),
      ("seq", .seq),
    ("map", .map), ("set", .set), ("omap", .orderedMap), ("pairs", .pairs)]

def ofName (name : String) : Tag :=
  ((names.find? fun (word, _) => stem ++ word = name).map (·.2)).getD .unknown

def isCollection : Tag → Bool
  | .seq | .map | .set | .orderedMap | .pairs => true
  | _ => false

end Tag

section Forms

def nullNames : List String := ["", "~", "null", "Null", "NULL"]

def trueNames : List String := ["yes", "true", "on"]

def falseNames : List String := ["no", "false", "off"]

def nanNames : List String := [".nan", ".NaN", ".NAN"]

/-- A word in lower case, in capitals, or with a capital first letter. -/
def isSpelling (word : String) (text : List Char) : Bool :=
  let lower := word.toList
  let upper := lower.map Char.toUpper
  text == lower || text == upper || text == upper.take 1 ++ lower.drop 1

def isDigitIn (base : Nat) (c : Char) : Bool := (Text.hexValue? c).any (· < base)

def isDigitOrSeparator (base : Nat) (c : Char) : Bool := c == '_' || isDigitIn base c

def splitColons (text : List Char) : List (List Char) := text.splitOnP (· == ':')

def isSixtieth : List Char → Bool
  | [c] => c.isDigit
  | [c, d] => '0' ≤ c && c ≤ '5' && d.isDigit
  | _ => false

/-- Digits and separators behind a digit other than zero. -/
def isLeading : List Char → Bool
  | c :: rest => '1' ≤ c && c ≤ '9' && rest.all (isDigitOrSeparator 10)
  | [] => false

def isSexagesimal (text : List Char) : Bool :=
  match splitColons text with
  | first :: second :: rest => isLeading first && (second :: rest).all isSixtieth
  | _ => false

def isInteger (text : List Char) : Bool :=
  match (Number.takeSign text).2 with
  | ['0'] => true
  | '0' :: 'b' :: digits => !digits.isEmpty && digits.all (isDigitOrSeparator 2)
  | '0' :: 'x' :: digits => !digits.isEmpty && digits.all (isDigitOrSeparator 16)
  | '0' :: digits => digits.all (isDigitOrSeparator 8)
  | rest => isLeading rest || isSexagesimal rest

def isExponent : List Char → Bool
  | [] => true
  | mark :: sign :: c :: rest =>
    (mark == 'e' || mark == 'E') && (sign == '+' || sign == '-') && (c :: rest).all Char.isDigit
  | _ => false

def isFraction (text : List Char) : Bool :=
  isExponent (text.dropWhile (isDigitOrSeparator 10))

def isFloat (text : List Char) : Bool :=
  let rest := (Number.takeSign text).2
  let whole := rest.takeWhile (· != '.')
  match whole, rest.dropWhile (· != '.') with
  | c :: digits, '.' :: fraction =>
    if !c.isDigit then false
    else if digits.all (isDigitOrSeparator 10) then isFraction fraction
    else match splitColons whole with
      | first :: places =>
        first.all (isDigitOrSeparator 10) && places.all isSixtieth &&
          fraction.all (isDigitOrSeparator 10)
      | [] => false
  | [], '.' :: word =>
    isSpelling "inf" word ||
      (text.head? == some '.' && word.head?.any Char.isDigit && isFraction word)
  | _, _ => false

def Tag.ofPlain (text : List Char) : Tag :=
  let name := String.ofList text
  if nullNames.contains name then .null
  else if (trueNames ++ falseNames).any fun word => isSpelling word text then .bool
  else if nanNames.contains name || isFloat text then .float
  else if isInteger text then .int
  else if name = "<<" then .merge
  else if isTimestamp text then .timestamp
  else if name = "=" then .ownValue
  else .str

end Forms

section Reading

def digitIn? (base : Nat) (c : Char) : Option Nat :=
  ((Text.hexValue? c).or (Text.digitValue? c)).filter (· < base)

def baseLetter? (base : Nat) : Option Char := [(2, 'b'), (8, 'o'), (16, 'x')].lookup base

def bareDigits (base : Nat) : List Char → List Char
  | '0' :: c :: rest => if baseLetter? base = some c.toLower then rest else '0' :: c :: rest
  | text => text

def integerIn (base : Nat) (text : List Char) : Except ScalarFault Int :=
  let trimmed := Text.strip text
  let found := if base = 10 then Text.integer? trimmed
    else
      let (negative, rest) := Number.takeSign trimmed
      match bareDigits base rest with
      | [] => none
      | digits => (digits.mapM (digitIn? base)).map fun values =>
        Number.withSign negative (values.foldl (fun n d => base * n + d) 0)
  match found with
  | some n => .ok n
  | none => .error (.notInt base (String.ofList text))

def magnitude (text : List Char) : Except ScalarFault Int :=
  match text with
  | [] => .error .empty
  | ['0'] => .ok 0
  | '0' :: 'b' :: digits => integerIn 2 digits
  | '0' :: 'x' :: digits => integerIn 16 digits
  | '0' :: _ => integerIn 8 text
  | _ =>
    if text.contains ':' then do
      let places ← (splitColons text).mapM (integerIn 10)
      pure (places.foldl (fun n place => 60 * n + place) 0)
    else integerIn 10 text

def readInteger (text : List Char) : Except ScalarFault Int :=
  match text.filter (· != '_') with
  | [] => .error .empty
  | digits =>
    let (negative, rest) := Number.takeSign digits
    (magnitude rest).map fun n => if negative then -n else n

def westernDigit (c : Char) : Char := ((Text.digitValue? c).map Nat.digitChar).getD c

def floatOf (text : List Char) : Except ScalarFault Number.Double :=
  match Number.Double.ofText? ((Text.strip text).map westernDigit) with
  | some x => .ok x
  | none => .error (.notFloat (String.ofList text))

/-- The sum of parts that count once, sixty times, and so on; each step is rounded. What a part
counts has to be in range itself. -/
def sexagesimalSum : (unit : Nat) → (parts : List Number.Double) → Number.Double →
    Except ScalarFault Number.Double
  | _, [], sum => .ok sum
  | unit, part :: rest, sum =>
    match Number.Double.ofNat? unit with
    | some x => sexagesimalSum (60 * unit) rest (sum.plus (part.times x))
    | none => .error .outOfRange

def readFloat (text : List Char) : Except ScalarFault Number.Double :=
  match (text.filter (· != '_')).map Char.toLower with
  | [] => .error .empty
  | chars =>
    let (negative, rest) := Number.takeSign chars
    let signed (x : Number.Double) : Number.Double := if negative then x.negate else x
    if rest = ".inf".toList then .ok (signed (.infinite false))
    else if rest = ".nan".toList then .ok .nan
    else if rest.contains ':' then do
      let parts ← (splitColons rest).mapM floatOf
      let sum ← sexagesimalSum 1 parts.reverse (.finite false 0)
      pure (signed sum)
    else (floatOf rest).map signed

def readTruth (text : List Char) : Except ScalarFault Bool :=
  let word := String.ofList (text.map Char.toLower)
  if trueNames.contains word then .ok true
  else if falseNames.contains word then .ok false
  else .error (.notTruth word)

def readMoment (m : WrittenMoment) : Except ScalarFault Value :=
  Except.mapError .calendar (match m.time with
    | none => .date <$> Date.ofNumbers m.year m.month m.day
    | some t =>
      .moment <$> Moment.ofNumbers m.year m.month m.day t.hour t.minute t.second
        t.microsecond t.offset)

def Tag.read (tag : Tag) (text : List Char) : Except Fault Value :=
  match tag with
  | .null => .ok .null
  | .str => .ok (.str (String.ofList text))
  | .bool => ((readTruth text).map .bool).mapError .scalar
  | .int => ((readInteger text).map .int).mapError .scalar
  | .float => ((readFloat text).map .float).mapError .scalar
  | .timestamp =>
    match moment? text with
    | some m => (readMoment m).mapError .scalar
    | none => .error (.scalar (.notTimestamp (String.ofList text)))
  | .binary =>
    if !text.all fun c => c.toNat < 128 then .error .yaml
    else match Text.base64? text with
      | some data => .ok (.bytes data)
      | none => .error .yaml
  | _ => .error .yaml

end Reading

example : Tag.ofPlain "08".toList = .str := by decide
example : Tag.ofPlain "1e2".toList = .str := by decide
example : Tag.ofPlain "1:60".toList = .str := by decide
example : readInteger "-1:04".toList = .ok (-64) := by rfl
example : readInteger "0100".toList = .ok 64 := by rfl
example : readInteger "0x_40".toList = .ok 64 := by rfl
example : readInteger "0o17".toList = .ok 15 := by rfl
example : readInteger "0b_".toList = .error (.notInt 2 "") := by rfl

end LiquidityPools.Yaml
