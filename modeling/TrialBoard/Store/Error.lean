import TrialBoard.Collection

/-!
# Why a store fails

Three causes are told apart by when they strike: the store cannot be reached, a read or write on an
open session fails, or a change stream breaks. The fourth is a row that is no object.
-/

namespace TrialBoard

/-- Why an operation of a store failed. -/
inductive StoreError where
  /-- No session could be opened, or the collections could not be set up. -/
  | unavailable (reason : String)
  /-- A read or write failed. -/
  | queryFailed (collection : Collection) (reason : String)
  /-- A change stream could not be opened, or broke. -/
  | subscriptionFailed (collection : Collection) (reason : String)
  /-- A row is not an object. -/
  | invalidDocument (reason : String)
deriving DecidableEq

/-- The words for an error. -/
def StoreError.message : StoreError → String
  | unavailable reason => "Store unavailable: " ++ reason
  | queryFailed collection reason => "Query on '" ++ collection.name ++ "' failed: " ++ reason
  | subscriptionFailed collection reason =>
    "Change stream for '" ++ collection.name ++ "' failed: " ++ reason
  | invalidDocument reason => "Invalid document: " ++ reason

end TrialBoard
