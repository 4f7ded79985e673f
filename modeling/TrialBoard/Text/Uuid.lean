/-!
# Random ids

An id is sixteen random bytes in hexadecimal, in groups of 4, 2, 2, 2 and 6 bytes. Six bits are
fixed: they say that the id is random.
-/

namespace TrialBoard.Text

/-- The two hexadecimal digits of a byte. -/
def byteDigits (b : UInt8) : List Char :=
  let digit (n : Nat) : Char := (Nat.digitChar n)
  [digit (b.toNat / 16), digit (b.toNat % 16)]

/-- The bytes of an id with the fixed bits set. -/
def markRandom (bytes : List UInt8) : List UInt8 :=
  bytes.zipIdx.map fun (b, place) =>
    if place = 6 then 0x40 ||| (b &&& 0x0F) else if place = 8 then 0x80 ||| (b &&& 0x3F) else b

/-- The id of sixteen random bytes. -/
def randomId (bytes : List UInt8) : String :=
  let digits := (markRandom bytes).map byteDigits
  let group (start count : Nat) : String := String.ofList ((digits.drop start).take count).flatten
  "-".intercalate [group 0 4, group 4 2, group 6 2, group 8 2, group 10 6]

end TrialBoard.Text
