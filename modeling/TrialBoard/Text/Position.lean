/-!
# Positions in a text

A reader knows where it stands by what is left of the text. A `Place` is such a remainder, together
with the number of bytes by which the place lies inside the next character. Lines are counted from
one, and columns in bytes from the last line end.
-/

namespace TrialBoard.Text

/-- A place in a text: before `rest`, or `inside` bytes into its first character. -/
structure Place where
  rest : List Char
  inside : Nat := 0
deriving DecidableEq, Repr

/-- The place before `rest`. -/
def Place.before (rest : List Char) : Place := { rest }

/-- The place one byte further than `rest`, or the end of the text. -/
def Place.oneByteInto : List Char → Place
  | [] => ⟨[], 0⟩
  | c :: cs => if c.utf8Size = 1 then ⟨cs, 0⟩ else ⟨c :: cs, 1⟩

/-- A line and a column. -/
structure Position where
  line : Nat
  column : Nat
deriving DecidableEq, Repr

/-- The position after reading one more character. -/
def Position.step (p : Position) (c : Char) : Position :=
  if c = '\n' then ⟨p.line + 1, 0⟩ else ⟨p.line, p.column + c.utf8Size⟩

/-- The start of every text. -/
def Position.start : Position := ⟨1, 0⟩

/-- The position of a place in a text. -/
def Place.position (text : List Char) (p : Place) : Position :=
  let read := text.take (text.length - p.rest.length)
  let reached := read.foldl Position.step .start
  ⟨reached.line, reached.column + p.inside⟩

end TrialBoard.Text
