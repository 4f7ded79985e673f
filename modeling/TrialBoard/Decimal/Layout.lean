import TrialBoard.Decimal.Shortest

/-!
# Laying out a decimal

A `Layout` decides between positional and exponent notation and how each is written.
`Layout.interchange` is the one used in every JSON text: positional from `10 ^ -5` up to below
`10 ^ 16`, always with a digit after the point, and otherwise a signed exponent.
-/

namespace TrialBoard.Decimal

/-- How decimals are written. -/
structure Layout where
  /-- The least place of the first digit, counted from the point, that is written positionally. -/
  leastPoint : Int
  /-- The largest such place. -/
  greatestPoint : Int
  /-- Whether a whole number is written with a point and a zero. -/
  keepsPoint : Bool
  /-- What stands between the digits and a positive exponent. -/
  exponentMark : String
  /-- What stands between the digits and a negative exponent. -/
  negativeExponentMark : String

/-- The layout of numbers in JSON text. -/
def Layout.interchange : Layout where
  leastPoint := -4
  greatestPoint := 16
  keepsPoint := true
  exponentMark := "e+"
  negativeExponentMark := "e-"

/-- `n` zeros. -/
def zeros (n : Nat) : String := String.ofList (List.replicate n '0')

/-- The text of a positive decimal. With `d` the digits, the value is `0.d * 10 ^ point`. -/
def Layout.format (l : Layout) (x : Decimal) : String :=
  let digits := Nat.repr x.digits
  let point := x.exponent + digits.length
  if l.leastPoint ≤ point ∧ point ≤ l.greatestPoint then
    if 0 ≤ x.exponent then
      digits ++ zeros x.exponent.toNat ++ (if l.keepsPoint then ".0" else "")
    else if 0 < point then
      String.ofList (digits.toList.take point.toNat) ++ "."
        ++ String.ofList (digits.toList.drop point.toNat)
    else "0." ++ zeros (-point).toNat ++ digits
  else
    let significand := match digits.toList with
      | [] => ""
      | [d] => String.ofList [d]
      | d :: ds => String.ofList (d :: '.' :: ds)
    let exponent := point - 1
    if exponent < 0 then significand ++ l.negativeExponentMark ++ Nat.repr exponent.natAbs
    else significand ++ l.exponentMark ++ Nat.repr exponent.natAbs

/-- The text of a binary64 number, zero and sign included. -/
def Layout.formatBinary64 (l : Layout) (x : Binary64) : String :=
  let text := if x.isZero then (if l.keepsPoint then "0.0" else "0") else l.format (shortest x)
  if x.negative then "-" ++ text else text

end TrialBoard.Decimal
