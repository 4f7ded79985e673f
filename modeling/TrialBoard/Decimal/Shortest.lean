import TrialBoard.Binary64

/-!
# The shortest decimal text of a binary64 number

Among the decimals that round to a given number, the one on the coarsest grid `10 ^ k` has the
fewest digits. `Decimal.shortest` looks for that grid from the coarsest on and takes the point of
it that lies nearest to the number, an even one between two. All tests are exact comparisons of
natural numbers.
-/

namespace TrialBoard

/-- A positive decimal `digits * 10 ^ exponent`. -/
structure Decimal where
  digits : Nat
  exponent : Int
deriving DecidableEq, Repr

namespace Decimal

/-- The decimals that round to one magnitude: `low / scale` to `high / scale`, around
`middle / scale`, with the ends where `closed`. -/
structure Interval where
  low : Nat
  middle : Nat
  high : Nat
  scale : Nat
  closed : Bool

/-- What rounds to a magnitude. The gap below a power of two is half the gap above it, and the ends
round to the magnitude exactly if its significand is even. -/
def Interval.around (magnitude : Nat) : Interval :=
  let value := 4 * Binary64.unitsOf magnitude
  let gap := Binary64.gap magnitude
  let isPower : Bool := magnitude % Binary64.hiddenBit = 0 && 2 * Binary64.hiddenBit ≤ magnitude
  let below := if isPower then gap else 2 * gap
  { low := value - below, middle := value, high := value + 2 * gap
    scale := 4 * Binary64.one, closed := magnitude % 2 = 0 }

/-- Whether `n / d` lies in the interval. -/
def Interval.contains (i : Interval) (n d : Nat) : Bool :=
  if i.closed then i.low * d ≤ n * i.scale && n * i.scale ≤ i.high * d
  else i.low * d < n * i.scale && n * i.scale < i.high * d

/-- `10 ^ k` as a quotient of natural numbers. -/
def powerOfTen (k : Int) : Nat × Nat :=
  if 0 ≤ k then (Nat.pow 10 k.toNat, 1) else (1, Nat.pow 10 (-k).toNat)

/-- The point of the grid `10 ^ k` in the interval that is nearest to its middle, if any is. -/
def Interval.gridPoint? (i : Interval) (k : Int) : Option Nat :=
  let (p, q) := powerOfTen k
  let below := i.middle * q / (i.scale * p)
  let holds (n : Nat) : Bool := 0 < n && i.contains (n * p) q
  let short := i.middle * q - below * (p * i.scale)
  let long := (below + 1) * (p * i.scale) - i.middle * q
  let nearer := if short < long then below
    else if long < short then below + 1
    else below + below % 2
  let farther := if nearer = below then below + 1 else below
  if holds nearer then some nearer else if holds farther then some farther else none

/-- The first grid, of the `n` next finer ones from `10 ^ k` on, with a point in the interval. -/
def Interval.search (i : Interval) : Nat → Int → Option Decimal
  | 0, _ => none
  | n + 1, k =>
    match i.gridPoint? k with
    | some digits => some ⟨digits, k⟩
    | none => i.search n (k - 1)

/-- The shortest decimal that rounds to the absolute value of a number other than zero. Grids from
`10 ^ 308` to `10 ^ -324` suffice. -/
def shortest (x : Binary64) : Decimal :=
  ((Interval.around x.magnitude).search 633 308).getD ⟨0, 0⟩

end Decimal

end TrialBoard
