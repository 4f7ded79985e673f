import TrialBoard.Text.Blank
import TrialBoard.Time.Instant

/-!
# Reading instants

The text is a date, a separator (`T`, `t` or a space), a time of day and an offset: `Z`, `UTC`, or a
sign with hours and minutes. Parts need no leading zeros and may have white space before them. The
second 60 is a leap second wherever it stands. Fraction digits after the ninth are dropped.

Faults of form are found from left to right, each part being checked for its own range as it is
read; whether the whole is a date of the calendar is asked last.
-/

namespace TrialBoard.Instant

/-- Why a text is no instant. -/
inductive ReadError where
  | tooShort
  | invalid
  | outOfRange
  | impossible
  | trailing
deriving DecidableEq, Repr

/-- The words for an error. -/
def ReadError.message : ReadError → String
  | tooShort => "premature end of input"
  | invalid => "input contains invalid characters"
  | outOfRange => "input is out of range"
  | impossible => "no possible date and time matching input"
  | trailing => "trailing input"

/-- Takes up to `width` digits. -/
def takeNumber (acc : Nat) : Nat → List Char → Nat × List Char
  | 0, cs => (acc, cs)
  | _ + 1, [] => (acc, [])
  | width + 1, c :: cs =>
    if c.isDigit then takeNumber (acc * 10 + (c.toNat - '0'.toNat)) width cs else (acc, c :: cs)

/-- Reads a number of one to `width` digits below `2 ^ 63`. -/
def number (width : Nat) (cs : List Char) : Except ReadError (Nat × List Char) :=
  match cs with
  | [] => .error .tooShort
  | c :: _ =>
    if c.isDigit then
      let (n, rest) := takeNumber 0 width cs
      if n < 0x8000000000000000 then .ok (n, rest) else .error .outOfRange
    else .error .invalid

/-- Reads a number in a range, after white space. -/
def numberIn (low high : Nat) (cs : List Char) : Except ReadError (Nat × List Char) := do
  let (n, rest) ← number 2 (Text.trimStart cs)
  if low ≤ n ∧ n ≤ high then return (n, rest) else throw .outOfRange

/-- Reads a year: four digits at most, or any number of them after a sign. -/
def readYear (cs : List Char) : Except ReadError (Int × List Char) := do
  let (year, rest) ← match Text.trimStart cs with
    | '-' :: digits => do
      let (n, rest) ← number digits.length digits
      pure (-(n : Int), rest)
    | '+' :: digits => do
      let (n, rest) ← number digits.length digits
      pure ((n : Int), rest)
    | digits => do
      let (n, rest) ← number 4 digits
      pure ((n : Int), rest)
  if -0x80000000 ≤ year ∧ year < 0x80000000 then return (year, rest) else throw .outOfRange

/-- Reads one given character, after white space. -/
def mark (expected : Char) (cs : List Char) : Except ReadError (List Char) :=
  match Text.trimStart cs with
  | [] => .error .tooShort
  | c :: rest => if c = expected then .ok rest else .error .invalid

/-- Reads a fraction of a second, in nanoseconds, if there is one. -/
def readFraction : List Char → Except ReadError (Nat × List Char)
  | '.' :: digits => do
    let (n, rest) ← number 9 digits
    let taken := digits.length - rest.length
    return (n * Nat.pow 10 (9 - taken), rest.dropWhile Char.isDigit)
  | cs => return (0, cs)

/-- Reads two digits. A text of fewer than two bytes is too short for them. -/
def twoDigits : List Char → Except ReadError ((Nat × Nat) × List Char)
  | [] => .error .tooShort
  | [c] => if c.utf8Size < 2 then .error .tooShort else .error .invalid
  | c :: d :: rest =>
    if c.isDigit ∧ d.isDigit then .ok ((c.toNat - '0'.toNat, d.toNat - '0'.toNat), rest)
    else .error .invalid

/-- Reads the hours and minutes of an offset, in seconds. -/
def readOffsetDigits (cs : List Char) : Except ReadError (Nat × List Char) := do
  let ((h, h'), rest) ← twoDigits cs
  let ((m, m'), rest) ← twoDigits (rest.dropWhile fun c => c = ':' || Text.isWhiteSpace c)
  if m < 6 then return ((h * 10 + h') * 3600 + (m * 10 + m') * 60, rest) else throw .outOfRange

/-- Reads an offset, in seconds east. -/
def readOffset (cs : List Char) : Except ReadError (Int × List Char) :=
  match cs with
  | [] => .error .tooShort
  | c :: rest =>
    if c = 'Z' ∨ c = 'z' then .ok (0, rest)
    else if (cs.take 3).map Char.toUpper = ['U', 'T', 'C'] then .ok (0, cs.drop 3)
    else if c = '+' then (readOffsetDigits rest).map fun (s, rest) => ((s : Int), rest)
    else if c = '-' ∨ c = '\u2212' then
      (readOffsetDigits rest).map fun (s, rest) => (-(s : Int), rest)
    else .error .invalid

/-- The years with a calendar. -/
def firstYear : Int := -262143

/-- The last year with a calendar. -/
def lastYear : Int := 262142

/-- The instant of a date and a time of day at an offset. -/
def ofLocal (date : Date) (second nanosecond : Nat) (offset : Int) : Except ReadError Instant :=
  if ¬(firstYear ≤ date.year ∧ date.year ≤ lastYear
      ∧ date.day ≤ Date.daysInMonth date.year date.month) then .error .outOfRange
  else if 86400 ≤ offset.natAbs then .error .outOfRange
  else
    let total := date.toDay * 86400 + second - offset
    let day := total / 86400
    let year := (Date.ofDay day).year
    if firstYear ≤ year ∧ year ≤ lastYear then .ok ⟨day, (total % 86400).toNat, nanosecond⟩
    else .error .impossible

/-- Reads an instant. -/
def parse (s : String) : Except ReadError Instant := do
  let (year, cs) ← readYear s.toList
  let (month, cs) ← numberIn 1 12 (← mark '-' cs)
  let (day, cs) ← numberIn 1 31 (← mark '-' cs)
  let cs ← match cs with
    | [] => throw .tooShort
    | c :: rest => if c = 'T' ∨ c = 't' ∨ c = ' ' then pure rest else throw .invalid
  let (hour, cs) ← numberIn 0 23 cs
  let (minute, cs) ← numberIn 0 59 (← mark ':' cs)
  let (second, cs) ← numberIn 0 60 (← mark ':' cs)
  let (nanosecond, cs) ← readFraction cs
  let (offset, cs) ← readOffset (Text.trimStart cs)
  unless (Text.trimStart cs).isEmpty do throw .trailing
  let leap := if second = 60 then 1 else 0
  ofLocal ⟨year, month, day⟩ (hour * 3600 + minute * 60 + (second - leap))
    (nanosecond + leap * 1000000000) offset

end TrialBoard.Instant
