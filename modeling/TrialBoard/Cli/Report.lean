/-!
# Reports

A command that fails reports an error and, below it, what it was caused by. Several causes are
numbered. A cause of several lines is indented as a whole.
-/

namespace TrialBoard.Cli

/-- An error, and the errors it was caused by, the nearest first. -/
structure Report where
  error : String
  causes : List String := []

namespace Report

/-- A cause behind its number, if it has one. -/
def indented (number? : Option Nat) (cause : String) : String :=
  let (first, others) := match number? with
    | some n =>
      let digits := toString n
      (String.ofList (List.replicate (5 - digits.length) ' ') ++ digits ++ ": ", "       ")
    | none => ("    ", "    ")
  "\n" ++ first ++ ("\n" ++ others).intercalate (cause.splitOn "\n")

/-- The causes, numbered from `n` on. -/
def numbered (n : Nat) : List String → String
  | [] => ""
  | cause :: causes => indented (some n) cause ++ numbered (n + 1) causes

/-- The report of a failure that has causes, the first of them being the error itself. -/
def ofCauses : List String → Report
  | [] => ⟨"", []⟩
  | error :: causes => ⟨error, causes⟩

/-- The text of a report. -/
def text (r : Report) : String :=
  "Error: " ++ r.error ++
    match r.causes with
    | [] => ""
    | [cause] => "\n\nCaused by:" ++ indented none cause
    | causes => "\n\nCaused by:" ++ numbered 0 causes

end Report

end TrialBoard.Cli
