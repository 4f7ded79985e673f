import TrialBoard.Config.Environment
import TrialBoard.Recorder
import TrialBoard.Store.Tables

/-!
# The machine

What a command asks of the machine that it runs on. Everything else a command does follows from the
answers.
-/

namespace TrialBoard.Cli

/-- A machine, whose answers come in a monad. -/
structure Host (m : Type → Type) where
  /-- The current directory. -/
  here : m String
  /-- The absolute path of something that exists. -/
  resolve : String → m (Option String)
  /-- The text at an absolute path; none if there is nothing. A directory has the empty text. -/
  text? : String → m (Option String)
  /-- The text of the user's settings. -/
  userText? : m (Option String)
  /-- The text of the nearest file of variables, in the current directory or above. -/
  variablesText? : m (Option String)
  /-- Writes a text to a path, or says why it cannot. -/
  write : String → String → m (Except String Unit)
  /-- The environment variables. -/
  environment : m Environment
  /-- The store in the database at a path. -/
  openStore : String → CollectionNames → m TableStore
  /-- Keeps the database of a store. -/
  keepStore : TableStore → m Unit
  /-- The time, and an id that nothing else has. -/
  stamp : m Recorder.Stamp
  /-- Takes an address to listen on, or says why it cannot. -/
  bind : String → m (Except String Unit)

end TrialBoard.Cli
