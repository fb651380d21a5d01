import Factbase.Calendar

/-! # Instants of time

A `Timestamp` is an instant in universal time: a day, a second of that day and nanoseconds. A leap
second is the 59th second of a minute with a billion nanoseconds or more, so that it comes after
everything else in its minute.

`Timestamp.rfc3339` writes it with the offset `+00:00`, `Timestamp.zulu` with `Z`; the fraction of
a second takes three, six or nine digits and is left out when it is zero. -/

namespace Factbase

/-- An instant in universal time. -/
@[ext]
structure Timestamp where
  /-- Days since 1970-01-01. -/
  day : Int
  /-- Seconds of the day. -/
  second : Nat
  /-- Nanoseconds, a billion more in a leap second. -/
  nano : Nat
  second_lt : second < 86400
  nano_lt : nano < 2000000000
  /-- A leap second is the last one of its minute. -/
  isLast : 1000000000 ≤ nano → second % 60 = 59
deriving DecidableEq, Repr

namespace Timestamp

/-- Order in time. -/
def order (a b : Timestamp) : Ordering :=
  (compare a.day b.day).then ((compare a.second b.second).then (compare a.nano b.nano))

/-- First day that a timestamp can have. -/
def firstDay : Int := Date.dayNumber ⟨-262143, 1, 1⟩

/-- Last day that a timestamp can have. -/
def lastDay : Int := Date.dayNumber ⟨262142, 12, 31⟩

/-- The instant at which a clock `offset` minutes ahead of universal time shows the given date and
time. A second 60 is read as a leap second. -/
def ofClock? (date : Date) (hour minute second nano : Nat) (offset : Int) : Option Timestamp :=
  let local? := date.dayNumber
  if date.isValid && firstDay ≤ local? && local? ≤ lastDay &&
      hour < 24 && minute < 60 && second ≤ 60 then
    -- a leap second counts as the second before it
    let leap := second == 60
    let seconds : Int :=
      (hour * 60 + minute - offset) * 60 + (if leap then 59 else second)
    let day := local? + seconds / 86400
    if firstDay ≤ day && day ≤ lastDay then
      if h : nano < 1000000000 then
        some {
          day
          second := (seconds % 86400).toNat
          nano := if leap then nano + 1000000000 else nano
          second_lt := by omega
          nano_lt := by split <;> omega
          isLast := by
            intro hnano
            by_cases hleap : leap = true
            · simp only [seconds, if_pos hleap]
              omega
            · rw [if_neg hleap] at hnano
              omega }
      else none
    else none
  else none

/-- Decimal digits with leading zeros up to a width. -/
def padded (width n : Nat) : String :=
  let ds := Nat.toDigits 10 n
  String.ofList (List.replicate (width - ds.length) '0' ++ ds)

/-- A year: four digits, and a sign when it has more or is negative. -/
def yearText (year : Int) : String :=
  if 0 ≤ year ∧ year ≤ 9999 then padded 4 year.toNat
  else (if year < 0 then "-" else "+") ++ padded 4 year.natAbs

/-- The fraction of a second with its point. -/
def fractionText (nano : Nat) : String :=
  if nano = 0 then ""
  else if nano % 1000000 = 0 then "." ++ padded 3 (nano / 1000000)
  else if nano % 1000 = 0 then "." ++ padded 6 (nano / 1000)
  else "." ++ padded 9 nano

/-- Date and time without an offset. -/
def dateTimeText (t : Timestamp) : String :=
  let date := Date.ofDayNumber t.day
  let leap := 1000000000 ≤ t.nano
  let second := t.second % 60 + if leap then 1 else 0
  yearText date.year ++ "-" ++ padded 2 date.month ++ "-" ++ padded 2 date.day ++ "T" ++
    padded 2 (t.second / 3600) ++ ":" ++ padded 2 (t.second / 60 % 60) ++ ":" ++
    padded 2 second ++ fractionText (if leap then t.nano - 1000000000 else t.nano)

/-- The text with a numeric offset. -/
def rfc3339 (t : Timestamp) : String := t.dateTimeText ++ "+00:00"

/-- The text with the letter for universal time. -/
def zulu (t : Timestamp) : String := t.dateTimeText ++ "Z"

end Timestamp

end Factbase
