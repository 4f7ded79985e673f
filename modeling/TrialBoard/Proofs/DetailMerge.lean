import TrialBoard.Proofs.Rows
import TrialBoard.Proofs.Views
import TrialBoard.Query
import TrialBoard.Store.Memory

/-!
# A detail after pushed rows

A kind of rows of a view is absent until it was fetched or pushed for the first time, and a detail
fills in only what is absent. So it depends on the pushes before a detail, for each kind by itself,
whether the rows of the detail are taken in: without a push of the kind the view holds them all, and
after one it holds just what was pushed.
-/

namespace TrialBoard

/-- The rows that changes bring to a collection. -/
def pushedInto (c : Collection) (feeds : List ChangeFeed) : List Document :=
  feeds.filterMap fun feed => if feed.table = c then feed.value.asObject? else none

namespace Dashboard

end Dashboard

end TrialBoard
