/-!
Days and times of the Gregorian calendar. A date exists only if its month has that day. A moment is
a date with a time of day, and perhaps the offset of its zone from universal time; moments with an
offset compare by the instant they name, those without one by the clock.
-/

namespace LiquidityPools

inductive CalendarFault where
  | year (n : Nat)
  | month
  | day
  | hour
  | minute
  | second
  | offset (minutes : Int)
  deriving DecidableEq, Repr

namespace Calendar

def isLeap (year : Nat) : Bool := year % 4 = 0 && (year % 100 ≠ 0 || year % 400 = 0)

def daysIn (year : Nat) : (month : Nat) → Nat
  | 2 => if isLeap year then 29 else 28
  | 4 | 6 | 9 | 11 => 30
  | _ => 31

def daysBefore (year month : Nat) : Nat :=
  (List.range (month - 1)).foldl (fun n m => n + daysIn year (m + 1)) 0

def minutesOfDay : Nat := 1440

def pad (width n : Nat) : String :=
  let digits := Nat.toDigits 10 n
  String.ofList (List.replicate (width - digits.length) '0' ++ digits)

end Calendar

structure Date where
  year : Nat
  month : Nat
  day : Nat
  exists_day : 1 ≤ year ∧ (1 ≤ month ∧ month ≤ 12) ∧ 1 ≤ day ∧ day ≤ Calendar.daysIn year month
  deriving DecidableEq, Repr

namespace Date

def ofNumbers (year month day : Nat) : Except CalendarFault Date :=
  if hy : 1 ≤ year then
    if hm : 1 ≤ month ∧ month ≤ 12 then
      if hd : 1 ≤ day ∧ day ≤ Calendar.daysIn year month then
        .ok ⟨year, month, day, hy, hm, hd⟩
      else .error .day
    else .error .month
  else .error (.year year)

/-- Days since the last day of the year before the first. -/
def number (d : Date) : Nat :=
  let past := d.year - 1
  365 * past + past / 4 - past / 100 + past / 400 + Calendar.daysBefore d.year d.month + d.day

def text (d : Date) : String :=
  Calendar.pad 4 d.year ++ "-" ++ Calendar.pad 2 d.month ++ "-" ++ Calendar.pad 2 d.day

end Date

structure Moment where
  date : Date
  hour : Nat
  minute : Nat
  second : Nat
  microsecond : Nat
  /-- Minutes ahead of universal time. -/
  offset : Option Int
  deriving DecidableEq, Repr

namespace Moment

/-- The offset is checked before the date, and the date before the time. -/
def ofNumbers (year month day hour minute second microsecond : Nat) (offset : Option Int) :
    Except CalendarFault Moment := do
  if let some minutes := offset then
    if Calendar.minutesOfDay ≤ minutes.natAbs then .error (.offset minutes)
  let date ← Date.ofNumbers year month day
  if 23 < hour then .error .hour
  if 59 < minute then .error .minute
  if 59 < second then .error .second
  pure { date, hour, minute, second, microsecond, offset }

/-- Microseconds, by the clock or, with an offset, by universal time. -/
def instant (m : Moment) : Int :=
  let minutes : Int := m.date.number * Calendar.minutesOfDay + m.hour * 60 + m.minute
  ((minutes - m.offset.getD 0) * 60 + m.second) * 1000000 + m.microsecond

def comparable (m n : Moment) : Bool := m.offset.isSome == n.offset.isSome

def same (m n : Moment) : Bool := m.comparable n && m.instant == n.instant

def offsetText (minutes : Int) : String :=
  let size := minutes.natAbs
  (if minutes < 0 then "-" else "+") ++ Calendar.pad 2 (size / 60) ++ ":" ++
    Calendar.pad 2 (size % 60)

def text (m : Moment) : String :=
  let time :=
    Calendar.pad 2 m.hour ++ ":" ++ Calendar.pad 2 m.minute ++ ":" ++ Calendar.pad 2 m.second
  let fraction := if m.microsecond = 0 then "" else "." ++ Calendar.pad 6 m.microsecond
  m.date.text ++ " " ++ time ++ fraction ++ (m.offset.map offsetText).getD ""

end Moment

def CalendarFault.spanText (minutes : Int) : String :=
  let days := minutes.fdiv Calendar.minutesOfDay
  let seconds := minutes.fmod Calendar.minutesOfDay * 60
  let rest := if seconds = 0 then "" else ", seconds=" ++ toString seconds
  "datetime.timedelta(days=" ++ toString days ++ rest ++ ")"

def CalendarFault.message : CalendarFault → String
  | .year n => s!"year {n} is out of range"
  | .month => "month must be in 1..12"
  | .day => "day is out of range for month"
  | .hour => "hour must be in 0..23"
  | .minute => "minute must be in 0..59"
  | .second => "second must be in 0..59"
  | .offset minutes =>
    "offset must be a timedelta strictly between -timedelta(hours=24) and timedelta(hours=24), not "
      ++ spanText minutes ++ "."

end LiquidityPools
