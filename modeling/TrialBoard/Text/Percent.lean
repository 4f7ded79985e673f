/-!
# Percent-encoding

A byte may be written as a percent sign and two hexadecimal digits. A percent sign that is followed
by anything else stands for itself.
-/

namespace TrialBoard.Text

/-- The value of the character of a hexadecimal digit, given as a byte. -/
def hexValue? (b : UInt8) : Option UInt8 :=
  if 48 ≤ b ∧ b ≤ 57 then some (b - 48)
  else if 65 ≤ b ∧ b ≤ 70 then some (b - 55)
  else if 97 ≤ b ∧ b ≤ 102 then some (b - 87)
  else none

/-- The bytes that percent-encoded bytes stand for. -/
def percentDecodeBytes : List UInt8 → List UInt8
  | [] => []
  | 37 :: a :: b :: rest =>
    match hexValue? a, hexValue? b with
    | some high, some low => (high * 16 + low) :: percentDecodeBytes rest
    | _, _ => 37 :: percentDecodeBytes (a :: b :: rest)
  | b :: rest => b :: percentDecodeBytes rest

/-- The text that a percent-encoded text stands for; none if its bytes are not UTF-8. -/
def percentDecode? (s : String) : Option String :=
  String.fromUTF8? ⟨(percentDecodeBytes s.toUTF8.toList).toArray⟩

end TrialBoard.Text
