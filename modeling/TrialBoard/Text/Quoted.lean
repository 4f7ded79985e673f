import TrialBoard.Text.Unseen

/-!
# Text quoted inside messages

A message shows a piece of text between double quotes, with quotes and backslashes escaped, and all
characters that would not be seen.
-/

namespace TrialBoard.Text

/-- The hexadecimal digits of a number, in lower case and without leading zeros. -/
def hex (n : Nat) : List Char := Nat.toDigits 16 n

/-- The form of one character between double quotes. -/
def quoteChar (c : Char) : List Char :=
  if c = '"' then ['\\', '"']
  else if c = '\\' then ['\\', '\\']
  else if c = '\n' then ['\\', 'n']
  else if c = '\r' then ['\\', 'r']
  else if c = '\t' then ['\\', 't']
  else if c = '\x00' then ['\\', '0']
  else if isHidden c then ['\\', 'u', '\x7b'] ++ hex c.toNat ++ ['\x7d']
  else [c]

/-- A text between double quotes. -/
def quoted (s : String) : String := "\"" ++ String.ofList (s.toList.flatMap quoteChar) ++ "\""

end TrialBoard.Text
