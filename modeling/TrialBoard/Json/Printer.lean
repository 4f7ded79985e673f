import TrialBoard.Decimal.Layout
import TrialBoard.Json.Basic

/-!
# Writing JSON text

Text is written without spaces, members in the order of their list. Inside a string only the quote,
the backslash and the control characters below the space are escaped.
-/

namespace TrialBoard

/-- The text of a number. -/
def JsonNumber.text : JsonNumber → List Char
  | integer value _ => (toString value).toList
  | real value => (Decimal.Layout.interchange.formatBinary64 value).toList

namespace Json

/-- A digit below sixteen, in lower case. -/
def hexDigit (n : Nat) : Char := if n < 10 then Char.ofNat (48 + n) else Char.ofNat (87 + n)

/-- The form of a character inside a string. -/
def escapeChar (c : Char) : List Char :=
  if c = '"' then ['\\', '"']
  else if c = '\\' then ['\\', '\\']
  else if c = '\x08' then ['\\', 'b']
  else if c = '\x0c' then ['\\', 'f']
  else if c = '\n' then ['\\', 'n']
  else if c = '\r' then ['\\', 'r']
  else if c = '\t' then ['\\', 't']
  else if c.toNat < 0x20 then
    ['\\', 'u', '0', '0', hexDigit (c.toNat / 16), hexDigit (c.toNat % 16)]
  else [c]

/-- The text of a string value. -/
def stringText (s : String) : List Char := '"' :: s.toList.flatMap escapeChar ++ ['"']

mutual

/-- The text of a value, as a list of characters. -/
def text : Json → List Char
  | null => ['n', 'u', 'l', 'l']
  | bool true => ['t', 'r', 'u', 'e']
  | bool false => ['f', 'a', 'l', 's', 'e']
  | number n => n.text
  | string s => stringText s
  | array items => '[' :: itemsText true items ++ [']']
  | object members => '\x7b' :: membersText true members ++ ['\x7d']

/-- The texts of the items of an array, with commas between them. -/
def itemsText (first : Bool) : List Json → List Char
  | [] => []
  | item :: items => (if first then [] else [',']) ++ text item ++ itemsText false items

/-- The texts of the members of an object, with commas between them. -/
def membersText (first : Bool) : List (String × Json) → List Char
  | [] => []
  | (key, value) :: members =>
    (if first then [] else [',']) ++ stringText key ++ ':' :: text value
      ++ membersText false members

end

/-- The text of a value. -/
def render (value : Json) : String := String.ofList value.text

end Json

end TrialBoard
