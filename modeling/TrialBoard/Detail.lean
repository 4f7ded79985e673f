import TrialBoard.Document
import TrialBoard.Json.Decoder

/-!
# The detail of an experiment

An experiment together with the rows that belong to it. Its written form is one object: the
experiment's own members, then a list of rows for each of the three collections of such rows. An
experiment whose own members have one of these three names is written with that key twice.
-/

namespace TrialBoard

/-- An experiment and the rows that belong to it. -/
structure Detail where
  experiment : Document
  transformations : List Document
  tests : List Document
  analytics : List Document

namespace Detail

/-- The written form of a list of rows. -/
def rowsToJson (rows : List Document) : Json := .array (rows.map .object)

/-- The written form of a detail. -/
def toJson (d : Detail) : Json :=
  .object (d.experiment ++
    [ ("transformations", rowsToJson d.transformations),
      ("tests", rowsToJson d.tests),
      ("analytics", rowsToJson d.analytics) ])

/-- The members read so far. -/
structure Collected where
  experiment : Document := []
  transformations? : Option (List Document) := none
  tests? : Option (List Document) := none
  analytics? : Option (List Document) := none

/-- The detail, if its three lists are there. -/
def finish (e : Collected) : Except Json.Cause Detail :=
  match e.transformations?, e.tests?, e.analytics? with
  | none, _, _ => .error (.missingField "transformations")
  | _, none, _ => .error (.missingField "tests")
  | _, _, none => .error (.missingField "analytics")
  | some transformations, some tests, some analytics =>
    .ok { experiment := e.experiment, transformations, tests, analytics }

/-- Reads a list of rows. -/
def rows : Json.Decoder (List Document) := .list .object

/-- The record of a detail: every member that is not one of the lists is the experiment's. -/
def shape : Json.Shape Collected Detail where
  expected := "struct ExperimentDetail"
  fields :=
    [ { name := "transformations", isSet := (·.transformations?.isSome)
        decoder := rows.map fun rs e => { e with transformations? := some rs } },
      { name := "tests", isSet := (·.tests?.isSome)
        decoder := rows.map fun rs e => { e with tests? := some rs } },
      { name := "analytics", isSet := (·.analytics?.isSome)
        decoder := rows.map fun rs e => { e with analytics? := some rs } } ]
  start := {}
  finish := finish
  keep? := some fun key value e =>
    { e with experiment := e.experiment.insert key value.canonical }
  arrays := .refused

/-- Reads a detail. -/
def decoder : Json.Decoder Detail := shape.decoder

end Detail

end TrialBoard
