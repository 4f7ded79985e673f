import TrialBoard.Json.Printer
import TrialBoard.Store.Interface

/-!
# Recording

Experiments and what belongs to them are recorded as rows that carry the time of their creation.
Whether the experiment exists that a row belongs to is not asked.
-/

namespace TrialBoard.Recorder

/-- What a row gets that does not come from the caller. -/
structure Stamp where
  /-- The time of its creation. -/
  now : String
  /-- Its id, unless it brings one. -/
  fresh : String

/-- What is recorded. -/
inductive Entry where
  | experiment (metadata : Json)
  | transformation (experiment version : String) (payload : Json)
  | test (experiment version : String) (payload : Json)
  | analytics (experiment : String) (payload : Json)

namespace Entry

/-- The collection an entry goes into. -/
def collection : Entry → Collection
  | experiment _ => .experiments
  | transformation .. => .transformations
  | test .. => .tests
  | analytics .. => .analytics

/-- The row of something that belongs to an experiment. -/
def belongingTo (experiment : String) : Document := [(Document.experimentKey, .string experiment)]

/-- The row of an entry. The metadata of an experiment are an object or null. -/
def row : Entry → Except StoreError Document
  | experiment (.object members) => .ok members
  | experiment .null => .ok []
  | experiment other =>
    .error (.invalidDocument
      ("experiment metadata must be a JSON object, got " ++ other.render))
  | transformation id version payload =>
    .ok (((belongingTo id).insert "version_name" (.string version)).insert "transformation" payload)
  | test id version payload =>
    .ok (((belongingTo id).insert "version" (.string version)).insert "test_data" payload)
  | analytics id payload => .ok ((belongingTo id).insert "analytics" payload)

end Entry

variable {σ τ : Type} [DocumentStore σ τ]

/-- Records an entry, and answers the id of its row. -/
def record (s : σ) (stamp : Stamp) (entry : Entry) : Except Failure String × σ :=
  match entry.row with
  | .error e => (.error (.error e), s)
  | .ok row =>
    DocumentStore.changeInSession s fun s =>
      DocumentStore.insert s entry.collection stamp.fresh
        (row.insert Document.createdAtKey (.string stamp.now))

end TrialBoard.Recorder
