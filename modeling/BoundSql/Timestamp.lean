import BoundSql.Power

/-! # Timestamps

A moment of the Gregorian calendar without a time zone, to the nanosecond. -/

namespace BoundSql

namespace Calendar

def isLeapYear (year : Int) : Bool :=
  year % 4 = 0 && (year % 100 != 0 || year % 400 == 0)

/-- The number of days in a month, January being the first. -/
def daysInMonth (year : Int) (month : Nat) : Nat :=
  match month with
  | 2 => if isLeapYear year then 29 else 28
  | 4 | 6 | 9 | 11 => 30
  | _ => 31

def firstYear : Int := -262143

def lastYear : Int := 262142

/-- The day exists, and its year is within the calendar. -/
def isDate (year : Int) (month day : Nat) : Bool :=
  firstYear ≤ year && year ≤ lastYear && 1 ≤ month && month ≤ 12 && 1 ≤ day &&
    day ≤ daysInMonth year month

/-- The time exists. Any minute may end in a leap second, which has the number 60. -/
def isTime (hour minute second nanosecond : Nat) : Bool :=
  hour < 24 && minute < 60 && second ≤ 60 && nanosecond < tenTo 9

end Calendar

/-- A date and a time of day. -/
structure Timestamp where
  year : Int
  month : Nat
  day : Nat
  hour : Nat
  minute : Nat
  second : Nat
  nanosecond : Nat
  date_exists : Calendar.isDate year month day = true
  time_exists : Calendar.isTime hour minute second nanosecond = true
  deriving DecidableEq

/-- The timestamp with the given parts, if there is one. -/
def Timestamp.ofParts? (year : Int) (month day hour minute second nanosecond : Nat) :
    Option Timestamp :=
  if h : Calendar.isDate year month day = true ∧
      Calendar.isTime hour minute second nanosecond = true then
    some ⟨year, month, day, hour, minute, second, nanosecond, h.1, h.2⟩
  else none

end BoundSql
