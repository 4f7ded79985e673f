import TrialBoard.Json.Reader
import TrialBoard.Store.Database
import TrialBoard.Store.Interface

/-!
# Following the log

A tail follows the changes of one table from the moment it was opened. It asks the log for what came
after the last change it knows, and gives the events one by one. A change that cannot be read ends
it: the events before are given first, then the reason, then nothing more.
-/

namespace TrialBoard

/-- A stream over the log. -/
structure Tail where
  collection : Collection
  table : String
  /-- The number of the last change that was read. -/
  cursor : Nat
  /-- What was read and not given yet. -/
  waiting : List ChangeEvent := []
  /-- Why no more can be read; it is given after what waits. -/
  failure? : Option StoreError := none
  hasEnded : Bool := false

namespace Tail

/-- A body of the log, if there is one. -/
def readBody (c : Collection) : Option String → Except StoreError (Option Json)
  | none => .ok none
  | some body =>
    match Json.parse body with
    | .ok value => .ok (some value)
    | .error e => .error (.subscriptionFailed c e.message)

/-- The event of a row of the log. -/
def readRow (c : Collection) (row : LogRow) : Except StoreError ChangeEvent := do
  let old? ← readBody c row.old?
  let new? ← readBody c row.new?
  return { old?, new? }

/-- Takes in rows of the log, up to the first that cannot be read. -/
def takeIn : List LogRow → Tail → Tail
  | [], tail => tail
  | row :: rows, tail =>
    match readRow tail.collection row with
    | .ok event => takeIn rows { tail with cursor := row.seq, waiting := tail.waiting ++ [event] }
    | .error e => { tail with failure? := some e }

/-- Asks the log for what is new. -/
def poll (db : Database) (tail : Tail) : Tail :=
  match db.log with
  | .ok log => takeIn (log.after tail.table tail.cursor) tail
  | .error e => { tail with failure? := some (.subscriptionFailed tail.collection e.message) }

/-- What there is without asking the log. -/
def give (tail : Tail) : Polled Tail :=
  if tail.hasEnded then .ended
  else
    match tail.waiting with
    | event :: waiting => .item (.ok event) { tail with waiting }
    | [] =>
      match tail.failure? with
      | some e => .item (.error e) { tail with failure? := none, hasEnded := true }
      | none => .pending tail

/-- The next item. The log is asked only when nothing is left. -/
def next (db : Database) (tail : Tail) : Polled Tail :=
  match tail.give with
  | .pending tail => (tail.poll db).give
  | polled => polled

/-- How many items there are at most. -/
def backlog (db : Database) (tail : Tail) : Nat :=
  tail.waiting.length + (db.log?.map fun log => (log.after tail.table tail.cursor).length).getD 0 + 1

end Tail

end TrialBoard
