/-
# The Gregorian calendar

Days are counted from 1970-01-01. Dates run from year 1 to year 9999.

* `Date.ofDays`, `Date.toDays`: days and dates;
* `Date.weekday`, `Date.isoWeek`, `Date.dayOfYear`.
-/
namespace Statechart

/-- A day of the Gregorian calendar. -/
structure Date where
  year : Int
  month : Nat
  day : Nat
deriving DecidableEq, Repr, Inhabited

namespace Date

def isLeap (y : Int) : Bool := y % 4 = 0 ∧ (y % 100 ≠ 0 ∨ y % 400 = 0)

/-- Days before a month of a year that is not a leap year. -/
def daysBefore : List Nat := [0, 31, 59, 90, 120, 151, 181, 212, 243, 273, 304, 334]

/-- The days of a month. -/
def monthLength (y : Int) (m : Nat) : Nat :=
  if m = 2 then if isLeap y then 29 else 28
  else if m = 4 ∨ m = 6 ∨ m = 9 ∨ m = 11 then 30 else 31

/-- Whether the calendar has the date. -/
def isValid (d : Date) : Bool :=
  1 ≤ d.year ∧ d.year ≤ 9999 ∧ 1 ≤ d.month ∧ d.month ≤ 12 ∧ 1 ≤ d.day ∧
    d.day ≤ monthLength d.year d.month

/-- The number of a day within its year, from 1. -/
def dayOfYear (d : Date) : Nat :=
  daysBefore.getD (d.month - 1) 0 + (if 2 < d.month ∧ isLeap d.year then 1 else 0) + d.day

/-- Days from 1970-01-01 to the first day of a year. -/
def yearStart (y : Int) : Int :=
  let p := y - 1
  365 * p + p / 4 - p / 100 + p / 400 - 719162

/-- Days from 1970-01-01. -/
def toDays (d : Date) : Int := yearStart d.year + d.dayOfYear - 1

/-- The month and day of the `n`-th day of a year, counted from 0. -/
def monthDay (y : Int) : Nat → Nat → Nat → Nat × Nat
  | 0, m, n => (m, n + 1)
  | fuel + 1, m, n =>
    let len := monthLength y m
    if n < len then (m, n + 1) else monthDay y fuel (m + 1) (n - len)

/-- The date of a day counted from 1970-01-01. -/
def ofDays (days : Int) : Date :=
  let guess := (days + 719162) * 400 / 146097 + 1
  let y :=
    if days < yearStart guess then guess - 1
    else if yearStart (guess + 1) ≤ days then guess + 1 else guess
  let (m, d) := monthDay y 11 1 (days - yearStart y).toNat
  ⟨y, m, d⟩

/-- The day of the week: Monday is 1, Sunday 7. -/
def weekday (d : Date) : Nat := ((d.toDays + 3) % 7).toNat + 1

/-- The Monday of week 1 of a year: the week that holds January 4. -/
def firstMonday (y : Int) : Int :=
  let fourth : Date := ⟨y, 1, 4⟩
  fourth.toDays - (fourth.weekday - 1)

/-- The year and number of the week a day belongs to. -/
def isoWeek (d : Date) : Int × Nat :=
  let days := d.toDays
  let y :=
    if days < firstMonday d.year then d.year - 1
    else if firstMonday (d.year + 1) ≤ days then d.year + 1 else d.year
  (y, ((days - firstMonday y) / 7).toNat + 1)

/-- The weeks of a year. -/
def weeksOf (y : Int) : Nat := ((firstMonday (y + 1) - firstMonday y) / 7).toNat

/-- The date of a day of a week, if the year has it. -/
def ofWeek? (y : Int) (week day : Nat) : Option Date :=
  if 1 ≤ y ∧ y ≤ 9999 ∧ 1 ≤ week ∧ week ≤ weeksOf y ∧ 1 ≤ day ∧ day ≤ 7 then
    some (ofDays (firstMonday y + 7 * (week - 1) + (day - 1)))
  else none

/-- The week of a year when weeks start on the weekday `first` and days before the first such day
are in week 0. -/
def weekFrom (d : Date) (first : Nat) : Nat := (d.dayOfYear - 1 + 7 - (d.weekday + 7 - first) % 7) / 7

end Date

/-- A moment: date, time of day and, when it is known, the distance from UTC. -/
structure Moment where
  date : Date
  hour : Nat := 0
  minute : Nat := 0
  second : Nat := 0
  microsecond : Nat := 0
  /-- Microseconds ahead of UTC. -/
  offset : Option Int := none
deriving DecidableEq, Repr, Inhabited

namespace Moment

/-- The moment so many microseconds after 1970 began in UTC. -/
def ofMicroseconds (us : Int) : Moment :=
  let day := us / 86400000000
  let rest := (us % 86400000000).toNat
  { date := Date.ofDays day
    hour := rest / 3600000000
    minute := rest / 60000000 % 60
    second := rest / 1000000 % 60
    microsecond := rest % 1000000
    offset := some 0 }

/-- Seconds since 1970 of the wall clock, its distance from UTC ignored. -/
def clockSeconds (m : Moment) : Int :=
  m.date.toDays * 86400 + m.hour * 3600 + m.minute * 60 + m.second

end Moment

end Statechart
