/-!
# Finite binary64 numbers

A finite binary64 number is a sign and the 63 bits of its magnitude, read as a natural number.
Those bits grow with the value, so comparing two numbers is comparing two integers, and no
infinity or NaN has to be carried along.

Values are counted in units of `2 ^ -1074`, the smallest magnitude above zero: every finite number
is a whole number of them (`Binary64.units`). The exact result of an operation is then a quotient
of two natural numbers of units, and `Binary64.ofUnits` rounds such a quotient once, to the
nearest number and to an even significand between two equally near ones.
-/

namespace TrialBoard

/-- The bits of positive infinity: every finite magnitude is below them. -/
def Binary64.infinityBits : Nat := 0x7FF0000000000000

/-- A finite binary64 number. -/
structure Binary64 where
  negative : Bool
  /-- Exponent and fraction, as one natural number. -/
  magnitude : Nat
  finite : magnitude < Binary64.infinityBits
deriving DecidableEq

namespace Binary64

/-- Positive zero. -/
def zero : Binary64 := ⟨false, 0, by decide⟩

instance : Inhabited Binary64 := ⟨zero⟩

/-- The number with the other sign. -/
def neg (x : Binary64) : Binary64 := { x with negative := !x.negative }

/-- The same magnitude, with the sign given. -/
def withSign (negative : Bool) (x : Binary64) : Binary64 := { x with negative }

/-- What a normal number's significand has above its fraction: `2 ^ 52`. -/
def hiddenBit : Nat := 0x10000000000000

/-- The distance between neighbouring magnitudes at `magnitude`, in units. -/
def gap (magnitude : Nat) : Nat := Nat.pow 2 (magnitude / hiddenBit - 1)

/-- The value of a magnitude, in units of `2 ^ -1074`. -/
def unitsOf (magnitude : Nat) : Nat :=
  if magnitude < hiddenBit then magnitude
  else (hiddenBit + magnitude % hiddenBit) * gap magnitude

/-- The absolute value, in units of `2 ^ -1074`. -/
def units (x : Binary64) : Nat := unitsOf x.magnitude

/-- How many units make one. -/
def one : Nat := Nat.pow 2 1074

/-- `num / den`, to the nearest natural number and to an even one between two. -/
def roundHalfEven (num den : Nat) : Nat :=
  let q := num / den
  let r := num % den
  if 2 * r < den then q
  else if den < 2 * r then q + 1
  else q + q % 2

/-- The magnitude nearest to `num / den` units, which may lie above every finite one. -/
def roundUnits (num den : Nat) : Nat :=
  let shift := Nat.log2 (num / den) - 52
  shift * hiddenBit + roundHalfEven num (den * Nat.pow 2 shift)

/-- The number nearest to `num / den` units; none where it is too large to be finite. -/
def ofUnits (num den : Nat) : Option Binary64 :=
  if h : roundUnits num den < infinityBits then some ⟨false, roundUnits num den, h⟩ else none

/-- The number nearest to a natural number below `2 ^ 1024`; zero above that bound. -/
def ofNat (n : Nat) : Binary64 := (ofUnits (n * one) 1).getD zero

/-- The number nearest to an integer of absolute value below `2 ^ 1024`. -/
def ofInt (i : Int) : Binary64 := withSign (i < 0) (ofNat i.natAbs)

/-- The product, rounded; none where it is too large. -/
def mul? (x y : Binary64) : Option Binary64 :=
  (ofUnits (x.units * y.units) one).map (withSign (x.negative != y.negative))

/-- The quotient by a number that is not zero, rounded; none where it is too large. -/
def div? (x y : Binary64) : Option Binary64 :=
  (ofUnits (x.units * one) y.units).map (withSign (x.negative != y.negative))

/-- The number nearest to `10 ^ n`; none from `10 ^ 309` on. -/
def powerOfTen? (n : Nat) : Option Binary64 := ofUnits (Nat.pow 10 n * one) 1

/-- The place of a number among all finite ones. The two zeros share one place. -/
def key (x : Binary64) : Int := if x.negative then -x.magnitude else x.magnitude

/-- The order of two numbers by value. -/
def compare (x y : Binary64) : Ordering := Ord.compare x.key y.key

/-- Equality by value: the two zeros are equal. -/
def same (x y : Binary64) : Bool := x.key == y.key

/-- Whether the value is zero, of either sign. -/
def isZero (x : Binary64) : Bool := x.magnitude == 0

theorem same_iff (x y : Binary64) : x.same y = true ↔ x.key = y.key := by
  simp [same]

end Binary64

end TrialBoard
