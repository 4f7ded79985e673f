import TrialBoard.Change
import TrialBoard.Dashboard.ExperimentView

/-!
# The dashboard

What a client keeps of the experiments it shows: one view each, and the selected experiment's id.
It is fed by a listing (`load`), by fetched details (`applyDetail`) and by pushed changes
(`applyChange`). Every operation answers whether it took effect, or whether details are still to be
fetched, and does no input or output itself.

Views are found by the id of their experiment, the first one winning.
-/

namespace TrialBoard

/-- The experiments shown, and the selected one. -/
structure Dashboard where
  views : List ExperimentView := []
  selected? : Option String := none

namespace Dashboard

/-- The dashboard that shows nothing. -/
def empty : Dashboard := {}

/-- The view of an experiment. -/
def experiment? (d : Dashboard) (id : String) : Option ExperimentView :=
  d.views.find? (ExperimentView.hasId id)

/-- The selected experiment's view. -/
def selectedView? (d : Dashboard) : Option ExperimentView := d.selected?.bind d.experiment?

/-- Changes the first view of an experiment. -/
def modifyFirst (id : String) (f : ExperimentView → ExperimentView) :
    List ExperimentView → List ExperimentView
  | [] => []
  | view :: views => if view.hasId id then f view :: views else view :: modifyFirst id f views

/-- Changes the view of an experiment, and answers whether there is one. -/
def modify (d : Dashboard) (id : String) (f : ExperimentView → ExperimentView) :
    Bool × Dashboard :=
  if (d.experiment? id).isSome then (true, { d with views := modifyFirst id f d.views })
  else (false, d)

/-- Selects an experiment that is held, and answers whether its details have to be fetched. -/
def select (d : Dashboard) (id : String) : Bool × Dashboard :=
  match d.experiment? id with
  | some view => (view.needsDetail, { d with selected? := some id })
  | none => (false, d)

/-- Appends a listing and selects its most recent experiment. The answer is that experiment's id if
its details have to be fetched. -/
def load (d : Dashboard) (experiments : List Document) : Option String × Dashboard :=
  let held := { d with views := d.views ++ experiments.map fun e => { experiment := e } }
  match (mostRecent experiments).bind Document.id? with
  | none => (none, held)
  | some id =>
    let (needsDetail, selected) := held.select id
    (if needsDetail then some id else none, selected)

/-- Fills the view of a fetched experiment, and answers whether it is held. -/
def applyDetail (d : Dashboard) (detail : Detail) : Bool × Dashboard :=
  match detail.experiment.id? with
  | some id => d.modify id (·.fillIn detail)
  | none => (false, d)

/-- Changes the selected view, and answers whether there is one. -/
def modifySelected (d : Dashboard) (f : ExperimentView → ExperimentView) : Bool × Dashboard :=
  match d.selected? with
  | some id => d.modify id f
  | none => (false, d)

/-- Selects a transformation of the selected experiment. -/
def selectTransformation (d : Dashboard) (id : String) : Bool × Dashboard :=
  d.modifySelected fun view => { view with selectedTransformation? := some id }

/-- Selects a test of the selected experiment. -/
def selectTest (d : Dashboard) (id : String) : Bool × Dashboard :=
  d.modifySelected fun view => { view with selectedTest? := some id }

/-- Whether an experiment is the selected one. -/
def isExperimentActive (d : Dashboard) (id : String) : Bool := d.selected? == some id

/-- Whether a transformation is the selected one of the selected experiment. -/
def isTransformationActive (d : Dashboard) (id : String) : Bool :=
  d.selectedView?.bind (·.selectedTransformation?) == some id

/-- Whether a test is the selected one of the selected experiment. -/
def isTestActive (d : Dashboard) (id : String) : Bool :=
  d.selectedView?.bind (·.selectedTest?) == some id

/-- Takes in an experiment's row: in the place of the one held under its id, or as a new view. It
becomes the selected one. -/
def pushExperiment (d : Dashboard) (row : Document) : Dashboard :=
  let added := { d with views := d.views ++ [{ experiment := row }], selected? := row.id? }
  match row.id? with
  | none => added
  | some id =>
    if (d.experiment? id).isSome then
      { views := modifyFirst id (fun view => { view with experiment := row }) d.views
        selected? := some id }
    else added

/-- What a row of a collection other than the experiments changes in its experiment's view. -/
def pushInto (table : Collection) (row : Document) (select : Bool) (view : ExperimentView) :
    ExperimentView :=
  match table with
  | .transformations => view.pushTransformation row select
  | .tests => view.pushTest row select
  | .analytics => view.pushAnalytics row
  | .experiments => view

/-- Applies a pushed change. It is ignored if the value is not an object, or if it belongs to no
experiment that is held; the answer tells which. -/
def applyChange (d : Dashboard) (feed : ChangeFeed) : Bool × Dashboard :=
  match feed.value, feed.table with
  | .object row, .experiments => (true, d.pushExperiment row)
  | .object row, table =>
    match Document.experiment? row with
    | some id => d.modify id (pushInto table row (d.isExperimentActive id))
    | none => (false, d)
  | _, _ => (false, d)

end Dashboard

end TrialBoard
