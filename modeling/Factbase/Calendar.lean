/-! # Calendar dates

The Gregorian calendar without beginning: `Date.dayNumber` counts the days from 1970-01-01 and
`Date.ofDayNumber` goes back. Both count years from March, so that the leap day is the last day of
its year, and in eras of 400 years, which all have the same length. -/

namespace Factbase

/-- A date of the Gregorian calendar. -/
@[ext]
structure Date where
  year : Int
  month : Nat
  day : Nat
deriving DecidableEq, Repr

namespace Date

/-- Years with a 29th of February. -/
def isLeapYear (year : Int) : Bool := year % 4 == 0 && (year % 100 != 0 || year % 400 == 0)

/-- Days of a month, zero for a number that names no month. -/
def daysInMonth (year : Int) (month : Nat) : Nat :=
  if month = 2 then (if isLeapYear year then 29 else 28)
  else if month = 4 ∨ month = 6 ∨ month = 9 ∨ month = 11 then 30
  else if 1 ≤ month ∧ month ≤ 12 then 31
  else 0

/-- Whether the month and the day exist. -/
def isValid (d : Date) : Bool := 1 ≤ d.day && d.day ≤ daysInMonth d.year d.month

/-- Days in an era of 400 years. -/
def eraDays : Int := 146097

/-- Days from the first of March of year zero to 1970-01-01. -/
def epochOffset : Int := 719468

/-- Days of an era before a year of it. -/
def daysBeforeYear (yearOfEra : Int) : Int :=
  yearOfEra * 365 + yearOfEra / 4 - yearOfEra / 100

/-- Days of a year before a month, both counted from March; from there on, five months have 153
days. -/
def daysBeforeMonth (month : Int) : Int := (153 * month + 2) / 5

/-- Days since 1970-01-01 of a date whose year and month are counted from March. -/
def dayNumberFromMarch (year month day : Int) : Int :=
  year / 400 * eraDays + daysBeforeYear (year % 400) + daysBeforeMonth month + day - 1 - epochOffset

/-- Days since 1970-01-01. -/
def dayNumber (d : Date) : Int :=
  if d.month ≤ 2 then dayNumberFromMarch (d.year - 1) (d.month + 9) d.day
  else dayNumberFromMarch d.year ((d.month : Int) - 3) d.day

/-- The year of an era in which a day of it lies: without its leap days an era has years of 365
days. -/
def yearOfEra (dayOfEra : Int) : Int :=
  (dayOfEra - dayOfEra / 1460 + dayOfEra / 36524 - dayOfEra / 146096) / 365

/-- The date whose year and month are given as counted from March. -/
def ofMarch (year month day : Int) : Date :=
  if month < 10 then ⟨year, (month + 3).toNat, day.toNat⟩
  else ⟨year + 1, (month - 9).toNat, day.toNat⟩

/-- The date a number of days after 1970-01-01. -/
def ofDayNumber (n : Int) : Date :=
  let z := n + epochOffset
  let dayOfEra := z % eraDays
  let year := yearOfEra dayOfEra
  let dayOfYear := dayOfEra - daysBeforeYear year
  let month := (5 * dayOfYear + 2) / 153
  ofMarch (year + z / eraDays * 400) month (dayOfYear - daysBeforeMonth month + 1)

end Date

end Factbase
