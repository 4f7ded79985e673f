import TrialBoard.Dashboard.Summary
import TrialBoard.Query
import TrialBoard.Relay
import TrialBoard.Store.Tables

/-!
# Watching

A watch follows the changes of a store with a dashboard. It subscribes before it lists the
experiments, so that nothing is missed that is written in between; a change that shows up twice does
no harm.
-/

namespace TrialBoard.Cli

/-- A dashboard that follows a store. -/
structure Watch where
  relay : Relay Tail
  dashboard : Dashboard

namespace Watch

/-- Loads the experiments into an empty dashboard, and what belongs to the selected one. -/
def load (store : TableStore) : Except Failure Dashboard := do
  let experiments ← (Query.list store).1
  let (selected?, dashboard) := Dashboard.empty.load experiments
  match selected? with
  | none => return dashboard
  | some id =>
    match ← (Query.detail store id).1 with
    | some detail => return (dashboard.applyDetail detail).2
    | none => return dashboard

/-- Starts to follow a store whose collections exist, with room for so many changes that wait.
Answers none if it cannot subscribe. -/
def start (store : TableStore) (capacity : Nat) : Option (Except Failure Watch) :=
  let (relay, store) := Relay.attach store capacity
  if relay.state = .closed then none
  else some ((load store).map fun dashboard => { relay, dashboard })

/-- Applies a change. Answers the line that it shows, if it changes anything. -/
def applyFeed (w : Watch) (feed : ChangeFeed) : List String × Watch :=
  let (applied, dashboard) := w.dashboard.applyChange feed
  (if applied then [feed.line] else [], { w with dashboard })

/-- Applies changes one after the other. -/
def applyFeeds (w : Watch) : List ChangeFeed → List String × Watch
  | [] => ([], w)
  | feed :: feeds =>
    let (shown, w) := w.applyFeed feed
    let (later, w) := applyFeeds w feeds
    (shown ++ later, w)

/-- Catches up with a store. Answers the lines that are shown. -/
def follow (w : Watch) (store : TableStore) : List String × Watch :=
  let (feeds, relay, _) := w.relay.receiveAll store
  applyFeeds { w with relay } feeds

end Watch

end TrialBoard.Cli
