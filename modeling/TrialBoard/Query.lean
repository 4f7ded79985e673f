import TrialBoard.Detail
import TrialBoard.Store.Interface

/-!
# The two questions

The programming interface answers two questions about a store: the list of the experiments, and the
detail of one. Each is asked in a session of its own.
-/

namespace TrialBoard.Query

/-- The detail of an experiment, from the answers of the reads that it takes. They are asked for one
after the other, and the first that fails decides. Without the experiment the others are not asked
for. -/
def join (experiment : Except StoreError (Option Document))
    (belonging : Collection → Except StoreError (List Document)) :
    Except StoreError (Option Detail) :=
  match experiment with
  | .error e => .error e
  | .ok none => .ok none
  | .ok (some experiment) => do
    let transformations ← belonging .transformations
    let tests ← belonging .tests
    let analytics ← belonging .analytics
    return some { experiment, transformations, tests, analytics }

variable {σ τ : Type} [DocumentStore σ τ]

/-- Every experiment, in the store's order. -/
def list (s : σ) : Except Failure (List Document) × σ :=
  DocumentStore.inSession s fun s => DocumentStore.scan s .experiments

/-- The detail of an experiment; none if there is no such experiment. -/
def detail (s : σ) (id : String) : Except Failure (Option Detail) × σ :=
  DocumentStore.inSession s fun s =>
    join (DocumentStore.get s .experiments id) fun c =>
      DocumentStore.filterEq s c Document.experimentKey (.string id)

end TrialBoard.Query
