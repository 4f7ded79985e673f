import TrialBoard.Detail
import TrialBoard.Recency

/-!
# One experiment of the dashboard

A view is an experiment's row and what is known of the rows that belong to it. Each of the three
kinds is absent until it was fetched or pushed for the first time. The selected transformation and
test are kept as ids and looked up among the rows.
-/

namespace TrialBoard

/-- An experiment as the dashboard holds it. -/
structure ExperimentView where
  experiment : Document
  transformations? : Option (List Document) := none
  tests? : Option (List Document) := none
  analytics? : Option Document := none
  selectedTransformation? : Option String := none
  selectedTest? : Option String := none

namespace ExperimentView

/-- The id of the experiment. -/
def id? (view : ExperimentView) : Option String := view.experiment.id?

/-- Whether the experiment has the id. -/
def hasId (id : String) (view : ExperimentView) : Bool := view.id? == some id

/-- Whether a kind of rows is still absent. -/
def needsDetail (view : ExperimentView) : Bool :=
  view.transformations?.isNone || view.tests?.isNone || view.analytics?.isNone

/-- The row with an id, among rows that may be absent. -/
def rowOf? (rows? : Option (List Document)) (id? : Option String) : Option Document := do
  (← rows?).find? (Document.hasId (← id?))

/-- The selected transformation's row. -/
def transformationRow? (view : ExperimentView) : Option Document :=
  rowOf? view.transformations? view.selectedTransformation?

/-- The selected test's row. -/
def testRow? (view : ExperimentView) : Option Document := rowOf? view.tests? view.selectedTest?

/-- The id of the most recent of rows that may be absent. -/
def latestId? (rows? : Option (List Document)) : Option String := do
  (← mostRecent (← rows?)).id?

/-- Fills in what is absent from a detail, and selects the most recent transformation and test. -/
def fillIn (view : ExperimentView) (detail : Detail) : ExperimentView :=
  let transformations? := some (view.transformations?.getD detail.transformations)
  let tests? := some (view.tests?.getD detail.tests)
  { view with
    transformations?
    tests?
    analytics? := view.analytics? <|> detail.analytics.head?
    selectedTransformation? := latestId? transformations?
    selectedTest? := latestId? tests? }

/-- Puts a row in the place of the first one with its id. A row that replaces none is appended. -/
def upsertRow (row : Document) (rows : List Document) : List Document :=
  match row.id? with
  | some id => Document.replaceOrAppend row id rows
  | none => rows ++ [row]

/-- Takes in a transformation, selecting it if asked to. -/
def pushTransformation (row : Document) (select : Bool) (view : ExperimentView) :
    ExperimentView :=
  { view with
    transformations? := some (upsertRow row (view.transformations?.getD []))
    selectedTransformation? := if select then row.id? else view.selectedTransformation? }

/-- Takes in a test, selecting it if asked to. -/
def pushTest (row : Document) (select : Bool) (view : ExperimentView) : ExperimentView :=
  { view with
    tests? := some (upsertRow row (view.tests?.getD []))
    selectedTest? := if select then row.id? else view.selectedTest? }

/-- Takes in analytics, in the place of any before. -/
def pushAnalytics (row : Document) (view : ExperimentView) : ExperimentView :=
  { view with analytics? := some row }

end ExperimentView

end TrialBoard
