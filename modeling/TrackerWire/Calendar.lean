import TrackerWire.Text.Pad

/-!
# Civil dates and times

Times are seconds since the start of 1970 in universal time, without leap seconds. Dates are
those of the Gregorian calendar, before its introduction as well. Years are counted from March, so
that the leap day is the last of its year, in cycles of 400 years of equal length.
-/

namespace TrackerWire

/-- Seconds since the start of 1970. -/
abbrev Time := Int

namespace Calendar

structure Date where
  year : Int
  month : Nat
  day : Nat
  deriving DecidableEq, Repr

structure Clock where
  hour : Nat
  minute : Nat
  second : Nat
  deriving DecidableEq, Repr

/-- Every fourth year is a leap year, of the full centuries only every fourth. -/
def isLeapYear (year : Int) : Bool := year % 4 = 0 && (year % 100 ≠ 0 || year % 400 = 0)

/-- The length of a month; zero for a number that is no month. -/
def daysInMonth (year : Int) (month : Nat) : Nat :=
  match month with
  | 1 | 3 | 5 | 7 | 8 | 10 | 12 => 31
  | 4 | 6 | 9 | 11 => 30
  | 2 => if isLeapYear year then 29 else 28
  | _ => 0

/-- Does the date exist? -/
def Date.isReal (date : Date) : Bool :=
  1 ≤ date.day && date.day ≤ daysInMonth date.year date.month

/-- Does the time of day exist? -/
def Clock.isReal (clock : Clock) : Bool :=
  clock.hour < 24 && clock.minute < 60 && clock.second < 60

/-- Days in a cycle of 400 years. -/
def cycleDays : Int := 146097

/-- From the first of March of year zero to the start of 1970. -/
def epochDay : Int := 719468

/-- Days from the start of 1970 to a date. -/
def dayNumber (date : Date) : Int :=
  let year := if date.month ≤ 2 then date.year - 1 else date.year
  let cycle := year / 400
  let yearOfCycle := year % 400
  let monthFromMarch : Int := (date.month + 9) % 12
  let dayOfYear := (153 * monthFromMarch + 2) / 5 + date.day - 1
  let dayOfCycle := yearOfCycle * 365 + yearOfCycle / 4 - yearOfCycle / 100 + dayOfYear
  cycle * cycleDays + dayOfCycle - epochDay

/-- The date so many days after the start of 1970. -/
def dateOf (day : Int) : Date :=
  let fromMarch := day + epochDay
  let cycle := fromMarch / cycleDays
  let dayOfCycle := fromMarch % cycleDays
  let yearOfCycle :=
    (dayOfCycle - dayOfCycle / 1460 + dayOfCycle / 36524 - dayOfCycle / 146096) / 365
  let dayOfYear := dayOfCycle - (365 * yearOfCycle + yearOfCycle / 4 - yearOfCycle / 100)
  let monthFromMarch := (5 * dayOfYear + 2) / 153
  let day := dayOfYear - (153 * monthFromMarch + 2) / 5 + 1
  let month := if monthFromMarch < 10 then monthFromMarch + 3 else monthFromMarch - 9
  let year := yearOfCycle + cycle * 400 + if month ≤ 2 then 1 else 0
  ⟨year, month.toNat, day.toNat⟩

def secondOfDay (clock : Clock) : Int := clock.hour * 3600 + clock.minute * 60 + clock.second

/-- The time of a date and a time of day, if both exist. -/
def time? (date : Date) (clock : Clock) : Option Time :=
  if date.isReal && clock.isReal then some (dayNumber date * 86400 + secondOfDay clock) else none

def date (time : Time) : Date := dateOf (time / 86400)

def clock (time : Time) : Clock :=
  let second := (time % 86400).toNat
  ⟨second / 3600, second / 60 % 60, second % 60⟩

/-- A year of at least four digits; one outside 0 to 9999 has a sign. -/
def yearText (year : Int) : String :=
  if 0 ≤ year ∧ year ≤ 9999 then Text.zeroPad 4 year.toNat
  else (if 0 ≤ year then "+" else "-") ++ Text.zeroPad 4 year.natAbs

/-- A time as year, month and day with hyphens, a blank, and the time of day with colons. -/
def text (time : Time) : String :=
  let date := date time
  let clock := clock time
  yearText date.year ++ "-" ++ Text.zeroPad 2 date.month ++ "-" ++ Text.zeroPad 2 date.day ++ " " ++
    Text.zeroPad 2 clock.hour ++ ":" ++ Text.zeroPad 2 clock.minute ++ ":" ++
    Text.zeroPad 2 clock.second

end Calendar

end TrackerWire
