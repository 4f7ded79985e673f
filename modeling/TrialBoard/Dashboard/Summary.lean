import TrialBoard.Dashboard.Basic
import TrialBoard.Dashboard.Verdict

/-!
# The dashboard in lines of text

`Dashboard.summary` tells in one line what is shown and selected, `ChangeFeed.line` what a change
brought.
-/

namespace TrialBoard

namespace Document

/-- A row's id, or a question mark. -/
def label (doc : Document) : String := doc.id?.getD "?"

/-- The word for the outcome of a test. -/
def verdict (test : Document) : String := if test.isSuccessful then "passed" else "failed"

end Document

/-- What is shown and what is selected. -/
def Dashboard.summary (d : Dashboard) : String :=
  toString d.views.length ++ " experiment(s)" ++
    match d.selectedView? with
    | none => ""
    | some view =>
      ", selected " ++ view.id?.getD "?"
        ++ (view.transformationRow?.map fun t => ", transformation " ++ t.label).getD ""
        ++ (view.testRow?.map fun t => ", test " ++ t.label ++ " (" ++ t.verdict ++ ")").getD ""

/-- What a change brought. -/
def ChangeFeed.line (feed : ChangeFeed) : String :=
  "[" ++ feed.table.name ++ "] " ++
    match feed.value with
    | .object row =>
      match feed.table, Document.experiment? row with
      | .tests, some id => Document.label row ++ " for " ++ id ++ " " ++ Document.verdict row
      | _, some id => Document.label row ++ " for " ++ id
      | _, none => Document.label row
    | _ => "(no value)"

end TrialBoard
