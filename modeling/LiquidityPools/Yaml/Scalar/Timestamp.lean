import LiquidityPools.Calendar
import LiquidityPools.Number.Decimal
import LiquidityPools.Yaml.Character

/-!
Dates and moments as YAML writes them: a date, then perhaps a time behind a letter T or blanks, with
a fraction of a second and the offset of a zone. Parts may have one digit or two where a time
follows; a date alone has two.
-/

namespace LiquidityPools.Yaml

structure WrittenTime where
  hour : Nat
  minute : Nat
  second : Nat
  microsecond : Nat
  offset : Option Int

structure WrittenMoment where
  year : Nat
  month : Nat
  day : Nat
  time : Option WrittenTime

/-- A number of at least so many digits, and what follows; it takes no more than `most`. -/
def digits? (least most : Nat) (text : List Char) : Option (Nat × List Char) :=
  let digits := (text.take most).takeWhile Char.isDigit
  if digits.length < least then none else some (Number.natOf digits, text.drop digits.length)

def expect? (c : Char) : List Char → Option (List Char)
  | d :: rest => if d = c then some rest else none
  | [] => none

/-- The first six digits behind the point, as if there were at least six. -/
def microseconds (fraction : List Char) : Nat :=
  let digits := fraction.take 6
  Number.natOf (digits ++ List.replicate (6 - digits.length) '0')

def zone? : List Char → Option Int
  | ['Z'] => some 0
  | sign :: rest => do
    if sign ≠ '+' && sign ≠ '-' then none
    let (hours, rest) ← digits? 1 2 rest
    let (minutes, rest) ← match rest with
      | ':' :: rest => digits? 2 2 rest
      | _ => pure (0, rest)
    if !rest.isEmpty then none
    let size : Int := hours * 60 + minutes
    pure (if sign = '-' then -size else size)
  | [] => none

def time? (text : List Char) : Option WrittenTime := do
  let (hour, rest) ← digits? 1 2 text
  let (minute, rest) ← digits? 2 2 (← expect? ':' rest)
  let (second, rest) ← digits? 2 2 (← expect? ':' rest)
  let (fraction, rest) := match rest with
    | '.' :: rest => (rest.takeWhile Char.isDigit, rest.dropWhile Char.isDigit)
    | _ => ([], rest)
  let offset ← if rest.isEmpty then pure none else some <$> zone? (rest.dropWhile isSpace)
  pure { hour, minute, second, microsecond := microseconds fraction, offset }

def moment? (text : List Char) : Option WrittenMoment := do
  let (year, rest) ← digits? 4 4 text
  let (month, rest) ← digits? 1 2 (← expect? '-' rest)
  let (day, rest) ← digits? 1 2 (← expect? '-' rest)
  match rest with
  | [] => pure { year, month, day, time := none }
  | c :: after =>
    let clock := if c = 'T' || c = 't' then after else rest.dropWhile isSpace
    if clock.length = rest.length then none
    else
      let time ← time? clock
      pure { year, month, day, time := some time }

def isTimestamp (text : List Char) : Bool :=
  (moment? text).any fun m => m.time.isSome || text.length = 10

example : isTimestamp "2001-12-14t21:59:43.10-05:00".toList = true := by decide
example : isTimestamp "2001-1-1".toList = false := by decide
example : isTimestamp "2001-12-14 21:59".toList = false := by decide

end LiquidityPools.Yaml
