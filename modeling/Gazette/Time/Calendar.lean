/-!
# The calendar

Dates of the Gregorian calendar, extended to all years, and their place in the count of days whose
day zero is the first of January 1970 (`Date.toDays`, `Date.ofDays`).  Years are counted from March
in both directions, so that the leap day is the last day of its year.
-/

namespace Gazette

/-- A date of the Gregorian calendar; months and days count from one. -/
structure Date where
  year : Int
  month : Nat
  day : Nat
  deriving DecidableEq, Repr, Inhabited

namespace Date

/-- Whether a year has a leap day. -/
def isLeapYear (year : Int) : Bool := year % 4 = 0 && (year % 100 ≠ 0 || year % 400 = 0)

/-- The number of days of a month. -/
def daysInMonth (year : Int) (month : Nat) : Nat :=
  if month = 2 then if isLeapYear year then 29 else 28
  else if month = 4 ∨ month = 6 ∨ month = 9 ∨ month = 11 then 30
  else 31

/-- Whether a date is in the calendar. -/
def isValid (d : Date) : Bool :=
  1 ≤ d.month && d.month ≤ 12 && 1 ≤ d.day && d.day ≤ daysInMonth d.year d.month

/-- The number of days in four hundred years. -/
def daysPerEra : Nat := 146097

/-- The days from the first of March of the year zero to the beginning of 1970. -/
def daysToEpoch : Nat := 719468

/-- The days from the first of March to the first of the month that is `m` months after it. -/
def daysBeforeMonth (m : Nat) : Nat := (153 * m + 2) / 5

/-- The number of a date in the count of days. -/
def toDays (d : Date) : Int :=
  let year := if d.month ≤ 2 then d.year - 1 else d.year
  let month := if d.month ≤ 2 then d.month + 9 else d.month - 3
  let era := year.fdiv 400
  let yearOfEra := year.fmod 400
  let dayOfYear : Int := daysBeforeMonth month + d.day - 1
  let dayOfEra := yearOfEra * 365 + yearOfEra / 4 - yearOfEra / 100 + dayOfYear
  era * daysPerEra + dayOfEra - daysToEpoch

/-- The date with a number in the count of days. -/
def ofDays (days : Int) : Date :=
  let z := days + daysToEpoch
  let era := z.fdiv daysPerEra
  let dayOfEra := (z.fmod daysPerEra).toNat
  let yearOfEra := (dayOfEra - dayOfEra / 1460 + dayOfEra / 36524 - dayOfEra / 146096) / 365
  let dayOfYear := dayOfEra - (365 * yearOfEra + yearOfEra / 4 - yearOfEra / 100)
  let m := (5 * dayOfYear + 2) / 153
  let month := if m < 10 then m + 3 else m - 9
  let year : Int := yearOfEra + era * 400
  ⟨if month ≤ 2 then year + 1 else year, month, dayOfYear - daysBeforeMonth m + 1⟩

end Date

end Gazette
