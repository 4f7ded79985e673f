import TrialBoard.Config.Setting
import TrialBoard.Time.Instant
import TrialBoard.Toml.Text

/-!
# Numbers, truth values and times in a TOML document

A value without quotes or brackets is one word; only a date and a time may have a space between
them. A word is an integer of 64 bits, decimal or in base 16, 8 or 2, a truth value, a number with a
fraction or an exponent, an infinity, a word for no number, or a date, a time or both. Single
underscores may stand between digits.
-/

namespace TrialBoard.Toml

/-- The digits of a run in which a single underscore may stand between two digits. -/
def digits? (isDigit : Char → Bool) : List Char → Option (List Char)
  | [] => none
  | [c] => if isDigit c then some [c] else none
  | c :: '_' :: rest => if isDigit c then (digits? isDigit rest).map (c :: ·) else none
  | c :: rest => if isDigit c then (digits? isDigit rest).map (c :: ·) else none

/-- The number that digits write in a base. -/
def valueOf (base : Nat) (digits : List Char) : Nat :=
  digits.foldl (fun n c => n * base + (Json.hexValue? c).getD 0) 0

/-- The digits of a decimal integer, which has no leading zeros. -/
def decimal? (cs : List Char) : Option (List Char) :=
  match digits? Char.isDigit cs with
  | some ('0' :: _ :: _) => none
  | digits => digits

/-- A sign and what follows it: whether it is a minus. -/
def signed : List Char → Bool × List Char
  | '-' :: rest => (true, rest)
  | '+' :: rest => (false, rest)
  | cs => (false, cs)

/-- An integer, if it fits 64 bits. -/
def fitting? (i : Int) : Option Setting :=
  if -0x8000000000000000 ≤ i ∧ i < 0x8000000000000000 then some (.integer i) else none

/-- A word as an integer. -/
def integer? (cs : List Char) : Option Setting :=
  let based (base : Nat) (isDigit : Char → Bool) (rest : List Char) :=
    (digits? isDigit rest).bind fun digits => fitting? (valueOf base digits)
  match cs with
  | '0' :: 'x' :: rest => based 16 (fun c => (Json.hexValue? c).isSome) rest
  | '0' :: 'o' :: rest => based 8 (fun c => '0' ≤ c && c ≤ '7') rest
  | '0' :: 'b' :: rest => based 2 (fun c => c == '0' || c == '1') rest
  | cs =>
    let (negative, rest) := signed cs
    (decimal? rest).bind fun digits =>
      fitting? (if negative then -(valueOf 10 digits : Int) else valueOf 10 digits)

/-- Whether the number of some digits, times `10 ^ exponent`, rounds to a finite binary64 number. -/
def isFinite (digits : List Char) (exponent : Int) : Bool :=
  valueOf 10 digits == 0 || exponent + digits.length < 300 ||
    (exponent < 400 &&
      (Binary64.ofUnits (valueOf 10 digits * Nat.pow 10 exponent.toNat * Binary64.one)
        (Nat.pow 10 (-exponent).toNat)).isSome)

/-- A word as a number that need not be an integer. A positive one may not be too large. -/
def real? (cs : List Char) : Option Setting := do
  let (negative, rest) := signed cs
  if rest == ['i', 'n', 'f'] || rest == ['n', 'a', 'n'] then return .real
  let isRun (c : Char) : Bool := c.isDigit || c == '_'
  let whole ← decimal? (rest.takeWhile isRun)
  let rest := rest.dropWhile isRun
  if rest.isEmpty then none
  let (fraction, rest) ← match rest with
    | '.' :: rest => (digits? Char.isDigit (rest.takeWhile isRun)).map (·, rest.dropWhile isRun)
    | rest => some ([], rest)
  let exponent ← match rest with
    | [] => some 0
    | e :: rest =>
      if e = 'e' ∨ e = 'E' then
        let (down, rest) := signed rest
        (digits? Char.isDigit rest).map fun digits =>
          if down then -(valueOf 10 digits : Int) else valueOf 10 digits
      else none
  if negative || isFinite (whole ++ fraction) (exponent - fraction.length) then return .real
  none

/-! ## Times -/

/-- The number of two digits, if it is at most `max`. -/
def pair? (max : Nat) (a b : Char) : Option Nat :=
  if a.isDigit ∧ b.isDigit ∧ valueOf 10 [a, b] ≤ max then some (valueOf 10 [a, b]) else none

/-- What follows the date that a text starts with. -/
def date? : List Char → Option (List Char)
  | a :: b :: c :: d :: '-' :: e :: f :: '-' :: g :: h :: rest => do
    if [a, b, c, d].all Char.isDigit = false then none
    let month ← pair? 12 e f
    let day ← pair? (Date.daysInMonth (valueOf 10 [a, b, c, d]) month) g h
    if month = 0 ∨ day = 0 then none else some rest
  | _ => none

/-- What follows the time of day that a text starts with. -/
def time? : List Char → Option (List Char)
  | a :: b :: ':' :: c :: d :: ':' :: e :: f :: rest => do
    let _ ← pair? 23 a b
    let _ ← pair? 59 c d
    let _ ← pair? 60 e f
    match rest with
    | '.' :: g :: rest => if g.isDigit then some (rest.dropWhile Char.isDigit) else none
    | rest => some rest
  | _ => none

/-- Whether a text is an offset from UTC, or nothing. -/
def isOffset : List Char → Bool
  | [] => true
  | [c] => c == 'Z' || c == 'z'
  | [s, a, b, ':', c, d] =>
    (s == '+' || s == '-') && (pair? 23 a b).isSome && (pair? 59 c d).isSome
  | _ => false

/-- A word as a date, a time, or a date and a time with an offset or none. It is taken for a table
without entries, for no setting can be a time. -/
def time (cs : List Char) : Option Setting :=
  let isTime := match date? cs with
    | some [] => true
    | some (c :: rest) => (c == 'T' || c == 't' || c == ' ') && ((time? rest).map isOffset).getD false
    | none => time? cs == some []
  if isTime then some (.table []) else none

/-! ## Words -/

/-- The value of a word. -/
def word? (cs : List Char) : Option Setting :=
  if cs = ['t', 'r', 'u', 'e'] then some (.flag true)
  else if cs = ['f', 'a', 'l', 's', 'e'] then some (.flag false)
  else ((time cs).or (real? cs)).or (integer? cs)

/-- Whether a character may stand in a word. -/
def isWordChar (c : Char) : Bool :=
  c.isAlphanum || c == '_' || c == '+' || c == '-' || c == '.' || c == ':'

/-- The word a text starts with, and what follows: a date takes in a time that stands one space
after it. -/
def splitWord (cs : List Char) : List Char × List Char :=
  let first := cs.takeWhile isWordChar
  match cs.dropWhile isWordChar with
  | ' ' :: c :: rest =>
    if date? first == some [] && c.isDigit then
      (first ++ ' ' :: (c :: rest).takeWhile isWordChar, (c :: rest).dropWhile isWordChar)
    else (first, ' ' :: c :: rest)
  | rest => (first, rest)

/-- Reads a value that is one word. -/
def scalar (cs : List Char) : Scan Setting :=
  match word? (splitWord cs).1 with
  | some value => .ok (value, (splitWord cs).2)
  | none => stuck "expected a value" cs

end TrialBoard.Toml
