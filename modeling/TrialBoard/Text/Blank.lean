/-!
# White space

The characters with the Unicode property `White_Space`, and cutting them off a text.
-/

namespace TrialBoard.Text

/-- Whether a character is white space. -/
def isWhiteSpace (c : Char) : Bool :=
  let n := c.toNat
  (0x09 ≤ n && n ≤ 0x0D) || n == 0x20 || n == 0x85 || n == 0xA0 || n == 0x1680
    || (0x2000 ≤ n && n ≤ 0x200A) || n == 0x2028 || n == 0x2029 || n == 0x202F || n == 0x205F
    || n == 0x3000

/-- The text without the white space it starts with. -/
def trimStart (cs : List Char) : List Char := cs.dropWhile isWhiteSpace

/-- The text without the white space it starts and ends with. -/
def trim (cs : List Char) : List Char := (trimStart (trimStart cs).reverse).reverse

/-- The string without the white space it starts and ends with. -/
def trimmed (s : String) : String := String.ofList (trim s.toList)

end TrialBoard.Text
