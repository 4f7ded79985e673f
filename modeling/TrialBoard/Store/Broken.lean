import TrialBoard.Store.Interface

/-!
# The store that breaks down

Every attempt to open a session with this store breaks down. It has no streams.
-/

namespace TrialBoard

/-- A store that breaks down, perhaps with a message. -/
structure BrokenStore where
  message? : Option String

namespace BrokenStore

/-- What the store would say if it could be asked. -/
def refusal : StoreError := .unavailable "panicking"

instance : DocumentStore BrokenStore Empty where
  backend _ := "panicking"
  openSession s := .error (.crash s.message?)
  closeSession s := s
  ensure s := (.error refusal, s)
  scan _ _ := .error refusal
  get _ _ _ := .error refusal
  filterEq _ _ _ _ := .error refusal
  insert _ _ _ _ := .error refusal
  upsert _ _ _ _ := .error refusal
  subscribe _ _ := .error refusal
  next _ stream := nomatch stream
  backlog _ _ := 0
  dropStream s _ := s

end BrokenStore

end TrialBoard
