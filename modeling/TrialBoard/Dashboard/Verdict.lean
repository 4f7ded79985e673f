import TrialBoard.Document

/-!
# Whether a test passed

A test passes when each of its results is marked correct. The results are the items of an array or
the values of an object at `test_data.results`; where there are none the test passes.
-/

namespace TrialBoard

/-- Whether a value counts as yes: not null, false, zero or the empty text. -/
def Json.isTruthy : Json → Bool
  | .null => false
  | .bool b => b
  | .number n => !n.toBinary64.isZero
  | .string s => !s.isEmpty
  | .array _ => true
  | .object _ => true

namespace Document

/-- The results of a test. -/
def results (test : Document) : List Json :=
  match (test.get? "test_data").bind (·.member? "results") with
  | some (.array items) => items
  | some (.object members) => members.map Prod.snd
  | _ => []

/-- Whether every result of a test is marked correct. -/
def isSuccessful (test : Document) : Bool :=
  test.results.all fun result => (result.member? "correct").any Json.isTruthy

end Document

end TrialBoard
