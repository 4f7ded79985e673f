/-!
# The registry of push connections

Connections are known by numbers that are never given twice. The registry takes no more of them
than its limit, and knows of each when it came and when it was last active. Moments are natural
numbers of whatever clock the caller keeps.
-/

namespace TrialBoard.Gateway

/-- What is known of a connection. -/
structure Connection where
  connectedAt : Nat
  lastActivity : Nat
deriving DecidableEq

/-- The connections, and how many there may be. -/
structure Registry where
  limit : Nat
  connections : List (Nat × Connection) := []
  /-- Above every number given so far. -/
  nextId : Nat := 0

namespace Registry

/-- The number of connections. -/
def count (r : Registry) : Nat := r.connections.length

/-- Takes a connection, unless the limit is reached. -/
def add (r : Registry) (now : Nat) : Option Nat × Registry :=
  if r.limit ≤ r.count then (none, r)
  else
    ( some r.nextId,
      { r with
        connections := r.connections ++ [(r.nextId, ⟨now, now⟩)]
        nextId := r.nextId + 1 } )

/-- Whether a connection is registered. -/
def contains (r : Registry) (id : Nat) : Bool := r.connections.any (·.1 == id)

/-- Removes a connection, and answers whether it was there. -/
def remove (r : Registry) (id : Nat) : Bool × Registry :=
  (r.contains id, { r with connections := r.connections.filter (·.1 != id) })

/-- Notes that a connection was active. -/
def touch (r : Registry) (id now : Nat) : Registry :=
  { r with connections := r.connections.map fun (other, c) =>
      (other, if other = id then { c with lastActivity := now } else c) }

/-- When the oldest of the connections came. -/
def oldest? (r : Registry) : Option Nat := (r.connections.map (·.2.connectedAt)).min?

/-- When any of the connections was last active. -/
def lastActivity? (r : Registry) : Option Nat := (r.connections.map (·.2.lastActivity)).max?

end Registry

end TrialBoard.Gateway
