import TrialBoard.Config.Basic
import TrialBoard.Json.Fault
import TrialBoard.Store.Interface

/-!
# Why the program fails

The failures of its parts, under one roof.
-/

namespace TrialBoard

/-- Why the program failed. -/
inductive ProgramError where
  | store (error : StoreError)
  | config (error : ConfigError)
  /-- The operating system refused, for the reason given. -/
  | io (reason : String)
  | json (error : Json.Error)
  /-- The store broke down, perhaps with a message. -/
  | crash (message? : Option String)

/-- What a failed request to a store is to the program. -/
def ProgramError.ofFailure : Failure → ProgramError
  | .error e => .store e
  | .crash message? => .crash message?

/-- The words for an error. -/
def ProgramError.message : ProgramError → String
  | store error => "Store error: " ++ error.message
  | config error => "Configuration error: " ++ error.message
  | io reason => "IO error: " ++ reason
  | json error => "Serialization error: " ++ error.message
  | crash message? => message?.getD "Unknown panic"

/-- The words for an error, and below it those for the failure of the part that it comes from. -/
def ProgramError.causes (error : ProgramError) : List String :=
  error.message :: match error with
    | store e => [e.message]
    | config e => [e.message]
    | io reason => [reason]
    | json e => [e.message]
    | crash _ => []

end TrialBoard
