/-!
# Instants

An instant is a day, counted from the first of January 1970 in the Gregorian calendar, a second of
that day and a nanosecond. A nanosecond of `10 ^ 9` or more is inside a leap second, which extends
the second it follows.

`Instant.text` writes an instant as date and time in UTC, with as few groups of three fraction
digits as hold it. Years outside 0 to 9999 carry a sign.
-/

namespace TrialBoard

/-- A calendar date. -/
structure Date where
  year : Int
  month : Nat
  day : Nat
deriving DecidableEq, Repr

namespace Date

/-- Whether a year has 366 days. -/
def isLeap (year : Int) : Bool := year % 4 = 0 && (year % 100 ≠ 0 || year % 400 = 0)

/-- The number of days of a month. -/
def daysInMonth (year : Int) (month : Nat) : Nat :=
  if month = 2 then (if isLeap year then 29 else 28)
  else if month = 4 ∨ month = 6 ∨ month = 9 ∨ month = 11 then 30
  else 31

/-- The days from the first of March of the year 0 to 1970. -/
def epochOffset : Int := 719468

/-- The day of a date, counted from 1970. Years are taken to begin in March, so that the leap day
ends them. -/
def toDay (d : Date) : Int :=
  let year := if d.month ≤ 2 then d.year - 1 else d.year
  let dayOfYear := (153 * ((d.month + 9) % 12) + 2) / 5 + (d.day - 1)
  let yearOfEra := year % 400
  (year / 400) * 146097 + yearOfEra * 365 + yearOfEra / 4 - yearOfEra / 100 + dayOfYear
    - epochOffset

/-- The date of a day counted from 1970. -/
def ofDay (day : Int) : Date :=
  let z := day + epochOffset
  let era := z / 146097
  let dayOfEra := z % 146097
  let yearOfEra := (dayOfEra - dayOfEra / 1460 + dayOfEra / 36524 - dayOfEra / 146096) / 365
  let dayOfYear := (dayOfEra - (365 * yearOfEra + yearOfEra / 4 - yearOfEra / 100)).toNat
  let shifted := (5 * dayOfYear + 2) / 153
  let month := if shifted < 10 then shifted + 3 else shifted - 9
  { year := era * 400 + yearOfEra + (if month ≤ 2 then 1 else 0)
    month
    day := dayOfYear - (153 * shifted + 2) / 5 + 1 }

end Date

/-- An instant in UTC. -/
structure Instant where
  /-- Counted from the first of January 1970. -/
  day : Int
  /-- Below 86400. -/
  second : Nat
  /-- Below `2 * 10 ^ 9`; from `10 ^ 9` on inside a leap second. -/
  nanosecond : Nat
deriving DecidableEq, Repr

namespace Instant

/-- A number with at least `width` digits. -/
def padded (width n : Nat) : String :=
  let digits := Nat.repr n
  String.ofList (List.replicate (width - digits.length) '0') ++ digits

/-- The text of a year. -/
def yearText (year : Int) : String :=
  if 0 ≤ year ∧ year ≤ 9999 then padded 4 year.toNat
  else (if year < 0 then "-" else "+") ++ padded 4 year.natAbs

/-- The text of a fraction of a second. -/
def fractionText (nanosecond : Nat) : String :=
  if nanosecond = 0 then ""
  else if nanosecond % 1000000 = 0 then "." ++ padded 3 (nanosecond / 1000000)
  else if nanosecond % 1000 = 0 then "." ++ padded 6 (nanosecond / 1000)
  else "." ++ padded 9 nanosecond

/-- The text of an instant. -/
def text (t : Instant) : String :=
  let date := Date.ofDay t.day
  let leap := t.nanosecond / 1000000000
  yearText date.year ++ "-" ++ padded 2 date.month ++ "-" ++ padded 2 date.day ++ "T"
    ++ padded 2 (t.second / 3600) ++ ":" ++ padded 2 (t.second / 60 % 60) ++ ":"
    ++ padded 2 (t.second % 60 + leap) ++ fractionText (t.nanosecond % 1000000000) ++ "Z"

/-- The text of an instant with microseconds. -/
def microsecondText (t : Instant) : String :=
  let whole : Instant := { t with nanosecond := 0 }
  ((whole.text.dropEnd 1).toString) ++ "." ++ padded 6 (t.nanosecond / 1000) ++ "Z"

/-- The instant a number of milliseconds after the start of 1970. -/
def ofMilliseconds (ms : Nat) : Instant :=
  ⟨(ms / 86400000 : Nat), ms / 1000 % 86400, ms % 1000 * 1000000⟩

/-- The instant a number of microseconds after the start of 1970. -/
def ofMicroseconds (us : Nat) : Instant :=
  ⟨(us / 86400000000 : Nat), us / 1000000 % 86400, us % 1000000 * 1000⟩

end Instant

end TrialBoard
