import TrialBoard.Store.Interface

/-!
# The relay of changes

A relay subscribes to every collection in one session and passes what it learns on to one receiver,
through a channel of bounded size. Each collection has its own forwarder, which holds at most one
feed in hand while the channel is full; those who wait are served in the order in which they came.

A forwarder stops at the first error of its stream, at its end, and when there is no receiver any
more. The others go on. Closing the relay stops all of them and closes the session; what is in the
channel can still be received.

`act` is one step of one forwarder, `settle` takes steps until none is possible.
-/

namespace TrialBoard

/-- Where a relay stands in its life. -/
inductive RelayState where
  | subscribed
  | closed
deriving DecidableEq

/-- The word for a state. -/
def RelayState.name : RelayState → String
  | subscribed => "Subscribed"
  | closed => "Closed"

/-- What passes on the changes of one collection. -/
structure Forwarder (τ : Type) where
  collection : Collection
  stream : τ
  /-- The feed that could not be sent yet. -/
  held? : Option ChangeFeed := none

/-- The way from a relay to its receiver. -/
structure Channel where
  capacity : Nat
  /-- What was sent and not received, the oldest first. -/
  queue : List ChangeFeed := []
  /-- The forwarders that hold a feed, in the order in which they came. -/
  waiting : List Collection := []
  hasReceiver : Bool := true

/-- How many feeds a channel can be made for at most. -/
def Channel.maxCapacity : Nat := 0x1FFFFFFFFFFFFFFF

/-- Whether a channel can be made for so many feeds. -/
def Channel.isCapacity (capacity : Nat) : Bool := 0 < capacity && capacity ≤ maxCapacity

/-- A relay, with its forwarders that have not stopped. -/
structure Relay (τ : Type) where
  state : RelayState
  forwarders : List (Forwarder τ) := []
  channel : Channel

namespace Relay

variable {σ τ : Type} [DocumentStore σ τ]

/-- The collections whose forwarders have not stopped. -/
def live (r : Relay τ) : List Collection := r.forwarders.map (·.collection)

/-- The forwarder of a collection. -/
def forwarder? (r : Relay τ) (c : Collection) : Option (Forwarder τ) :=
  r.forwarders.find? (·.collection == c)

/-- Puts a forwarder in the place of the one for its collection. -/
def update (r : Relay τ) (f : Forwarder τ) : Relay τ :=
  { r with forwarders := r.forwarders.map fun other =>
      if other.collection = f.collection then f else other }

/-- Takes away the forwarder of a collection, and what it holds. -/
def remove (r : Relay τ) (c : Collection) : Relay τ :=
  { r with
    forwarders := r.forwarders.filter (·.collection != c)
    channel := { r.channel with waiting := r.channel.waiting.filter (· != c) } }

/-- Subscribes to collections, passing over those that refuse. -/
def subscribeAll (s : σ) : List Collection → List (Forwarder τ) × σ
  | [] => ([], s)
  | c :: cs =>
    match DocumentStore.subscribe s c with
    | .ok (stream, s) =>
      let (forwarders, s) := subscribeAll s cs
      ({ collection := c, stream } :: forwarders, s)
    | .error _ => subscribeAll s cs

/-- A relay over a store, with room for so many feeds. If no session can be opened it is closed from
the start. -/
def attach (s : σ) (capacity : Nat) : Relay τ × σ :=
  match DocumentStore.openSession s with
  | .error _ => ({ state := .closed, channel := { capacity } }, s)
  | .ok s =>
    let (forwarders, s) := subscribeAll s Collection.all
    ({ state := .subscribed, forwarders, channel := { capacity } }, s)

/-- Stops a forwarder and gives its stream back. -/
def stop (s : σ) (r : Relay τ) (f : Forwarder τ) : Relay τ × σ :=
  (r.remove f.collection, DocumentStore.dropStream s f.stream)

/-- A forwarder that holds a feed sends it, if its turn has come and there is room. -/
def send (s : σ) (r : Relay τ) (f : Forwarder τ) (feed : ChangeFeed) : Option (Relay τ × σ) :=
  if r.channel.hasReceiver = false then some (r.stop s f)
  else
    match r.channel.waiting with
    | c :: waiting =>
      if c = f.collection ∧ r.channel.queue.length < r.channel.capacity then
        some ({ r.update { f with held? := none } with
          channel := { r.channel with queue := r.channel.queue ++ [feed], waiting } }, s)
      else none
    | [] => none

/-- A forwarder with empty hands asks its stream. Heartbeats are dropped. -/
def take (s : σ) (r : Relay τ) (f : Forwarder τ) : Option (Relay τ × σ) :=
  match DocumentStore.next s f.stream with
  | .pending _ => none
  | .ended => some (r.stop s f)
  | .item (.error _) stream => some (r.stop s { f with stream })
  | .item (.ok event) stream =>
    if event.isHeartbeat then some (r.update { f with stream }, s)
    else
      some ({ r.update { f with stream, held? := some (.ofEvent f.collection event) } with
        channel := { r.channel with waiting := r.channel.waiting ++ [f.collection] } }, s)

/-- One step of the forwarder of a collection, if it can take one. -/
def act (s : σ) (r : Relay τ) (c : Collection) : Option (Relay τ × σ) :=
  match r.forwarder? c with
  | none => none
  | some f =>
    match f.held? with
    | some feed => r.send s f feed
    | none => r.take s f

/-- The step of the first of some forwarders that can take one. -/
def actAny (s : σ) (r : Relay τ) : List Collection → Option (Relay τ × σ)
  | [] => none
  | c :: cs =>
    match r.act s c with
    | some step => some step
    | none => actAny s r cs

/-- Takes steps until none is possible, or so many were taken. -/
def settleFor : Nat → σ → Relay τ → Relay τ × σ
  | 0, s, r => (r, s)
  | fuel + 1, s, r =>
    match r.actAny s Collection.all with
    | some (r, s) => settleFor fuel s r
    | none => (r, s)

/-- An upper bound for the steps until none is possible: one to take and one to send each item, and
one to send what is held, and one to stop. -/
def stepBound (s : σ) (r : Relay τ) : Nat :=
  (r.forwarders.map fun f => 2 * DocumentStore.backlog s f.stream + 2).foldl (· + ·) 0

/-- Takes steps until none is possible. -/
def settle (s : σ) (r : Relay τ) : Relay τ × σ := settleFor (r.stepBound s) s r

/-- Takes the oldest feed out of the channel. -/
def receive (r : Relay τ) : Option (ChangeFeed × Relay τ) :=
  match r.channel.queue with
  | feed :: queue => some (feed, { r with channel := { r.channel with queue } })
  | [] => none

/-- Receives up to so many feeds, letting the forwarders go on after each. -/
def receiveUpTo : Nat → σ → Relay τ → List ChangeFeed × Relay τ × σ
  | 0, s, r => ([], r, s)
  | n + 1, s, r =>
    let (r, s) := r.settle s
    match r.receive with
    | none => ([], r, s)
    | some (feed, r) =>
      let (feeds, r, s) := receiveUpTo n s r
      (feed :: feeds, r, s)

/-- An upper bound for what can be received before anything new is published. -/
def receivable (s : σ) (r : Relay τ) : Nat :=
  r.channel.queue.length
    + (r.forwarders.map fun f => DocumentStore.backlog s f.stream + 1).foldl (· + ·) 0

/-- Receives everything there is. -/
def receiveAll (s : σ) (r : Relay τ) : List ChangeFeed × Relay τ × σ :=
  receiveUpTo (r.receivable s) s r

/-- Whether nothing will ever be received any more. -/
def isExhausted (r : Relay τ) : Bool := r.channel.queue.isEmpty && r.forwarders.isEmpty

/-- Gives up the receiver, and what it has not received. -/
def dropReceiver (r : Relay τ) : Relay τ :=
  { r with channel := { r.channel with queue := [], hasReceiver := false } }

/-- Stops every forwarder and closes the session. A closed relay stays as it is. -/
def close (s : σ) (r : Relay τ) : Relay τ × σ :=
  match r.state with
  | .closed => (r, s)
  | .subscribed =>
    let s := r.forwarders.foldl (fun s f => DocumentStore.dropStream s f.stream) s
    ( { r with state := .closed, forwarders := [], channel := { r.channel with waiting := [] } },
      DocumentStore.closeSession s )

end Relay

end TrialBoard
