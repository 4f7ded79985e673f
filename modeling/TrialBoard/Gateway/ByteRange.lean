/-!
# Byte ranges

A header asks for parts of a file: from one byte to another, from one byte on, or the last so many.
Only one part is served at a time.
-/

namespace TrialBoard.Gateway

/-- A part of a file, as it is asked for. -/
inductive AskedRange where
  | between (first last : Nat)
  | onwards (first : Nat)
  | ending (count : Nat)
deriving DecidableEq

/-- A part of a file: its first and its last byte. -/
structure ByteRange where
  first : Nat
  last : Nat
deriving DecidableEq

/-- What becomes of a header that asks for parts. -/
inductive RangeAnswer where
  | part (range : ByteRange)
  /-- Several parts, none of them at fault. -/
  | several
  | unsatisfiable
deriving DecidableEq

namespace AskedRange

/-- Reads a number of plain digits below `2 ^ 64`, without needless zeros. -/
def number? (cs : List Char) : Option Nat :=
  if cs.isEmpty || !cs.all Char.isDigit then none
  else if cs.head? = some '0' ∧ 1 < cs.length then none
  else
    let n := cs.foldl (fun n c => n * 10 + (c.toNat - '0'.toNat)) 0
    if n < 0x10000000000000000 then some n else none

/-- Reads one part, after at most one space. -/
def ofText? (cs : List Char) : Option AskedRange :=
  let cs := match cs with
    | ' ' :: rest => rest
    | cs => cs
  match cs.span (· != '-') with
  | (_, []) => none
  | ([], _ :: count) => do
    let n ← number? count
    if n = 0 then none else some (.ending n)
  | (first, _ :: []) => (number? first).map onwards
  | (first, _ :: last) => do some (.between (← number? first) (← number? last))

/-- The part of a file of so many bytes; none if it is not there. -/
def within? (size : Nat) : AskedRange → Option ByteRange
  | between first last =>
    if size ≤ first ∨ last < first then none else some ⟨first, min last (size - 1)⟩
  | onwards first => if size ≤ first then none else some ⟨first, size - 1⟩
  | ending count => if size < count then none else some ⟨size - count, size - 1⟩

end AskedRange

namespace RangeAnswer

/-- Splits at every comma. -/
def commaSeparated : List Char → List (List Char)
  | [] => [[]]
  | c :: cs =>
    if c = ',' then [] :: commaSeparated cs
    else
      match commaSeparated cs with
      | [] => [[c]]
      | piece :: rest => (c :: piece) :: rest

/-- Whether some part shares a byte with a later one. -/
def overlap : List ByteRange → Bool
  | [] => false
  | r :: rs => rs.any (fun s => r.first ≤ s.last && s.first ≤ r.last) || overlap rs

/-- The answer to a header, for a file of so many bytes. -/
def ofHeader (size : Nat) (header : String) : RangeAnswer :=
  match header.toList with
  | 'b' :: 'y' :: 't' :: 'e' :: 's' :: '=' :: cs =>
    match (commaSeparated cs).mapM fun piece =>
        (AskedRange.ofText? piece).bind (AskedRange.within? size) with
    | none => .unsatisfiable
    | some [range] => .part range
    | some ranges => if overlap ranges then .unsatisfiable else .several
  | _ => .unsatisfiable

end RangeAnswer

end TrialBoard.Gateway
