import TrialBoard.Document

/-!
# The most recent row

Rows are ordered by what they say of their creation: nothing readable first, then numbers by value,
then texts by character. `mostRecent` picks the greatest row, and of several equally great ones the
earliest.
-/

namespace TrialBoard

/-- What a row's creation is known by. -/
inductive CreationMark where
  /-- Absent, or neither a number nor a text. -/
  | unknown
  | number (value : Binary64)
  | text (value : String)

namespace CreationMark

/-- The mark of a value, or of none. -/
def ofValue : Option Json → CreationMark
  | some (.number n) => number n.toBinary64
  | some (.string s) => text s
  | _ => unknown

/-- The order of marks. -/
def compare : CreationMark → CreationMark → Ordering
  | unknown, unknown => .eq
  | unknown, _ => .lt
  | number _, unknown => .gt
  | number x, number y => x.compare y
  | number _, text _ => .lt
  | text x, text y => Ord.compare x y
  | text _, _ => .gt

end CreationMark

/-- The order of two values that tell of a creation. -/
def compareCreatedAt (a b : Option Json) : Ordering :=
  (CreationMark.ofValue a).compare (CreationMark.ofValue b)

/-- The later of two rows, the first one if neither is. -/
def moreRecent (current doc : Document) : Document :=
  if compareCreatedAt doc.createdAt? current.createdAt? = .gt then doc else current

/-- The most recent of the rows; of equally recent ones the earliest. -/
def mostRecent : List Document → Option Document
  | [] => none
  | doc :: docs => some (docs.foldl moreRecent doc)

end TrialBoard
