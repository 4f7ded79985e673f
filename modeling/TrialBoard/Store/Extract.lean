import TrialBoard.Json.Basic
import TrialBoard.Json.Lenient

/-!
# Looking into stored bodies

A query for the rows that have a scalar at a key is first put to the database, which looks into the
stored bodies along a path. The path is `$."key"`: the key is put between quotes as it is, so a key
that holds a quote makes a path of more steps, or one that cannot be followed. A key with a backslash
is read as an escaped one.

The database compares what it finds with the scalar: numbers by value, whatever their kind, true and
false as one and zero, texts character by character. Nothing is equal to null.
-/

namespace TrialBoard

open Json (Lenient)

/-- What the database compares. -/
inductive Scalar where
  | integer (value : Int)
  /-- A number that is not an integer of 64 bits; none if it is infinite. -/
  | real (value? : Option Binary64)
  /-- A text, as the numbers of its characters. -/
  | text (characters : List Nat)

namespace Scalar

/-- The scalar of a JSON value; none for null and containers. -/
def ofJson : Json → Option Scalar
  | .string s => some (text (s.toList.map Char.toNat))
  | .bool b => some (integer (if b then 1 else 0))
  | .number (.integer value _) =>
    some (if value < 0x8000000000000000 then integer value else real (some (Binary64.ofInt value)))
  | .number (.real value) => some (real (some value))
  | .null => none
  | .array _ => none
  | .object _ => none

/-- The scalar that the database finds in a body; none for null, containers and what has no value. -/
def ofLenient : Lenient → Option Scalar
  | .text written => some (text (Lenient.characters written))
  | .bool b => some (integer (if b then 1 else 0))
  | .integer value => some (integer value)
  | .real value? => some (real value?)
  | .overlong => none
  | .null => none
  | .array _ => none
  | .object _ => none

/-- Whether an integer is the value of a number. -/
def integerIs (i : Int) (x : Binary64) : Bool :=
  i * Binary64.one == (if x.negative then -(x.units : Int) else x.units)

/-- Equality as the database sees it. -/
def same : Scalar → Scalar → Bool
  | integer a, integer b => a == b
  | integer a, real (some b) => integerIs a b
  | real (some a), integer b => integerIs b a
  | real (some a), real (some b) => a.same b
  | text a, text b => a == b
  | _, _ => false

end Scalar

/-- Why a query cannot look into a body. -/
inductive ExtractFault where
  /-- The body cannot be read, or what it has there has no value. -/
  | malformed
  /-- The path cannot be followed. -/
  | badPath (path : String)
deriving DecidableEq

/-- A text in single quotes, which are doubled inside. -/
def singleQuoted (s : String) : String := "'" ++ s.replace "'" "''" ++ "'"

/-- The words for a fault. -/
def ExtractFault.message : ExtractFault → String
  | malformed => "malformed JSON"
  | badPath path => "bad JSON path: " ++ singleQuoted path

namespace Extract

/-- The characters of a label up to the first null character. -/
def label (written : List Char) : List Nat := (Lenient.characters written).takeWhile (· != 0)

/-- The value of the first member with a label. -/
def member? (key : List Char) (members : List (List Char × Lenient)) : Option Lenient :=
  (members.find? fun (other, _) => label other == label key).map Prod.snd

/-- The place in an array of so many items that the characters of an index mean, and what follows its
closing bracket. The place is none if it is before the first item. -/
def index? (length : Nat) (cs : List Char) : Option (Option Nat × List Char) :=
  match cs with
  | '#' :: ']' :: rest => some (some length, rest)
  | '#' :: '-' :: back =>
    match back.span Char.isDigit with
    | (_ :: _, ']' :: rest) =>
      let n := Lenient.decimalNumber (back.takeWhile Char.isDigit)
      some (if n ≤ length then some (length - n) else none, rest)
    | _ => none
  | cs =>
    match cs.span Char.isDigit with
    | (_ :: _, ']' :: rest) => some (some (Lenient.decimalNumber (cs.takeWhile Char.isDigit)), rest)
    | _ => none

/-- What becomes of following a path. -/
inductive Followed where
  | found (value : Lenient)
  | missing
  | badPath

/-- Follows a path through a member, and on from there. -/
def through (next : List Char → Lenient → Followed) (key rest : List Char) : Lenient → Followed
  | .object members =>
    match member? key members with
    | some value => next rest value
    | none => .missing
  | _ => .missing

/-- Follows a path from a value. -/
def follow : Nat → List Char → Lenient → Followed
  | 0, _, _ => .badPath
  | _ + 1, [], value => .found value
  | fuel + 1, '.' :: '"' :: cs, value =>
    match cs.span (· != '"') with
    | (_, []) => .badPath
    | (key, _ :: rest) => through (follow fuel) key rest value
  | fuel + 1, '.' :: cs, value =>
    match cs.span fun c => c != '.' && c != '[' with
    | ([], _) => .badPath
    | (key, rest) => through (follow fuel) key rest value
  | fuel + 1, '[' :: cs, value =>
    match value with
    | .array items =>
      match index? items.length cs with
      | none => .badPath
      | some (place?, rest) =>
        match place?.bind (items[·]?) with
        | some item => follow fuel rest item
        | none => .missing
    | _ => .missing
  | _ + 1, _ :: _, _ => .badPath

/-- The path to a key. It ends before the first null character. -/
def path (key : String) : String :=
  String.ofList (("$.\"" ++ key ++ "\"").toList.takeWhile (· != '\x00'))

/-- What a body has at a key, or the fault in looking for it. -/
def atKey (key body : String) : Except ExtractFault (Option Scalar) :=
  match Lenient.parse? body with
  | none => .error .malformed
  | some value =>
    match follow (key.length + 4) ((path key).toList.drop 1) value with
    | .found .overlong => .error .malformed
    | .found value => .ok (Scalar.ofLenient value)
    | .missing => .ok none
    | .badPath => .error (.badPath (path key))

/-- Whether a body has a scalar at a key. -/
def matches? (key : String) (scalar : Scalar) (body : String) : Except ExtractFault Bool :=
  (atKey key body).map fun found => found.any (·.same scalar)

/-- The bodies that have a scalar at a key. -/
def select (key : String) (scalar : Scalar) : List String → Except ExtractFault (List String)
  | [] => .ok []
  | body :: bodies => do
    let isMatch ← matches? key scalar body
    let rest ← select key scalar bodies
    return if isMatch then body :: rest else rest

end Extract

end TrialBoard
