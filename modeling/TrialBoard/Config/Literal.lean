import TrialBoard.Text.Blank
import TrialBoard.Toml.Text
import TrialBoard.Config.Setting

/-!
# Settings in the values of variables

The value of an environment variable is read as a truth value, a number, a character between single
quotes, a string between double quotes, a list in brackets or a table in braces, if all of it can be
read so; else it stands for itself. Lists and tables hold such values again, and a bare text there
ends at a comma or bracket.
-/

namespace TrialBoard

namespace Literal

/-- White space around a value. -/
def isSpace (c : Char) : Bool :=
  c == ' ' || c == '\t' || c == '\n' || c == '\r' || c == '\x0c'

/-- The text without leading white space. -/
def skipSpace (cs : List Char) : List Char := cs.dropWhile isSpace

/-- Whether a character ends a bare text. -/
def isSeparator (c : Char) : Bool :=
  c == ',' || c == '\x7b' || c == '\x7d' || c == '[' || c == ']'

/-- What follows a word that a text starts with. -/
def after? : List Char → List Char → Option (List Char)
  | [], cs => some cs
  | _ :: _, [] => none
  | w :: ws, c :: cs => if w = c then after? ws cs else none

/-- The number that a text of digits writes. -/
def digits? (cs : List Char) : Option Nat :=
  if cs.isEmpty = false ∧ cs.all Char.isDigit then
    some (cs.foldl (fun n c => n * 10 + Json.digitValue c) 0)
  else none

/-- An integer of 64 bits, with or without a sign. -/
def integer? : List Char → Option Int
  | '-' :: cs => (digits? cs).bind fun n => if n ≤ 0x8000000000000000 then some (-(n : Int)) else none
  | '+' :: cs => (digits? cs).bind fun n => if n < 0x10000000000000000 then some (n : Int) else none
  | cs => (digits? cs).bind fun n => if n < 0x10000000000000000 then some (n : Int) else none

/-- Whether a text is a number with a decimal point. -/
def isReal (cs : List Char) : Bool :=
  let unsigned := match cs with
    | '+' :: cs => cs
    | '-' :: cs => cs
    | cs => cs
  let whole := unsigned.takeWhile Char.isDigit
  match unsigned.dropWhile Char.isDigit with
  | '.' :: rest =>
    let fraction := rest.takeWhile Char.isDigit
    let exponent := match rest.dropWhile Char.isDigit with
      | [] => true
      | e :: '+' :: digits => (e == 'e' || e == 'E') && (digits? digits).isSome
      | e :: '-' :: digits => (e == 'e' || e == 'E') && (digits? digits).isSome
      | e :: digits => (e == 'e' || e == 'E') && (digits? digits).isSome
    (whole ++ fraction).isEmpty = false && exponent
  | _ => false

/-- What a bare text stands for. -/
def bare (cs : List Char) : Setting :=
  if isReal cs then .real
  else match integer? cs with
    | some i => .integer i
    | none => .text (String.ofList cs)

/-- Reads the name of an entry. -/
def name? (cs : List Char) : Option (String × List Char) :=
  match cs with
  | '"' :: rest => (Toml.doubleQuoted [] rest).toOption
  | cs =>
    if (cs.takeWhile Toml.isBare).isEmpty then none
    else some (String.ofList (cs.takeWhile Toml.isBare), cs.dropWhile Toml.isBare)

mutual

/-- Reads a value with the white space around it. -/
def value? : Nat → List Char → Option (Setting × List Char)
  | 0, _ => none
  | fuel + 1, cs => do
    let cs := skipSpace cs
    let (value, rest) ←
      match after? ['t', 'r', 'u', 'e'] cs, after? ['f', 'a', 'l', 's', 'e'] cs, cs with
      | some rest, _, _ => some (Setting.flag true, rest)
      | none, some rest, _ => some (.flag false, rest)
      | none, none, '\x7b' :: rest => entries? fuel [] rest
      | none, none, '[' :: rest => items? fuel [] rest
      | none, none, '"' :: rest =>
        (Toml.doubleQuoted [] rest).toOption.map fun (s, rest) => (.text s, rest)
      | none, none, '\'' :: c :: '\'' :: rest => some (.text (String.ofList [c]), rest)
      | none, none, '\'' :: _ => none
      | none, none, cs =>
        some (bare (Text.trim (cs.takeWhile (!isSeparator ·))), cs.dropWhile (!isSeparator ·))
    return (value, skipSpace rest)

/-- Reads the items of a list up to its end. A comma may follow the last one. -/
def items? : Nat → List Setting → List Char → Option (Setting × List Char)
  | 0, _, _ => none
  | fuel + 1, seen, cs =>
    match cs with
    | ']' :: rest => some (.list seen.reverse, rest)
    | cs =>
      match value? fuel cs with
      | some (item, ',' :: rest) => items? fuel (item :: seen) rest
      | some (item, ']' :: rest) => some (.list (item :: seen).reverse, rest)
      | _ => none

/-- Reads the entries of a table up to its end. A comma may follow the last one. -/
def entries? : Nat → List (String × Setting) → List Char → Option (Setting × List Char)
  | 0, _, _ => none
  | fuel + 1, entries, cs =>
    match cs with
    | '\x7d' :: rest => some (.table entries, rest)
    | cs =>
      match (name? (skipSpace cs)).map fun (name, rest) => (name, skipSpace rest) with
      | some (name, '=' :: rest) =>
        match value? fuel rest with
        | some (value, ',' :: rest) => entries? fuel (Setting.insert name value entries) rest
        | some (value, '\x7d' :: rest) => some (.table (Setting.insert name value entries), rest)
        | _ => none
      | _ => none

end

end Literal

/-- What the value of a variable stands for. -/
def Setting.ofText (s : String) : Setting :=
  let cs := Text.trim s.toList
  match Literal.value? (cs.length + 1) cs with
  | some (value, []) => value
  | _ => .text (String.ofList cs)

end TrialBoard
