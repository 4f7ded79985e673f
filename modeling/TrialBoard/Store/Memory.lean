import TrialBoard.Store.Feed
import TrialBoard.Store.Interface

/-!
# The store in memory

Rows are kept in the order in which they were first written. Two rows may have one id; reads and
replacements take the first. Every collection has a feed.

The store can be told to fail in the ways its users have to bear: sessions and queries, the queries
of one collection, or its subscriptions. It counts the sessions that are open; its streams are
counted by the feeds.
-/

namespace TrialBoard

/-- How a store in memory was told to fail. -/
structure Faults where
  unavailable : Bool := false
  failingQueries : ByCollection Bool := .ofFn fun _ => false
  failingSubscriptions : ByCollection Bool := .ofFn fun _ => false

/-- A store in memory. -/
structure MemoryStore where
  rows : ByCollection (List Document) := .ofFn fun _ => []
  feeds : ByCollection Feed := .ofFn fun _ => {}
  faults : Faults := {}
  openSessions : Nat := 0

/-- A stream of a store in memory: its collection, and the number of its next item. -/
structure FeedReader where
  collection : Collection
  position : Nat
deriving DecidableEq

namespace MemoryStore

/-- The empty store without faults. -/
def empty : MemoryStore := {}

/-- How many streams were handed out and not given back. -/
def liveStreams (s : MemoryStore) : Nat := (s.feeds.toList.map (·.readers)).foldl (· + ·) 0

/-- Whether there is no row. -/
def isEmpty (s : MemoryStore) : Bool := s.rows.toList.all List.isEmpty

/-- Publishes an item in the feed of a collection. -/
def publish (s : MemoryStore) (c : Collection) (item : FeedItem) : MemoryStore :=
  { s with feeds := s.feeds.set c ((s.feeds.get c).publish item) }

/-- Publishes an item, and answers how many streams it reaches. -/
def announce (s : MemoryStore) (c : Collection) (item : FeedItem) : Nat × MemoryStore :=
  ((s.feeds.get c).readers, s.publish c item)

/-- Publishes an event, as another writer would. -/
def emit (s : MemoryStore) (c : Collection) (event : ChangeEvent) : Nat × MemoryStore :=
  s.announce c (.ok event)

/-- Breaks the streams of a collection. -/
def failStream (s : MemoryStore) (c : Collection) (reason : String) : Nat × MemoryStore :=
  s.announce c (.error reason)

/-- Lets sessions and queries fail, or no longer. -/
def setUnavailable (s : MemoryStore) (value : Bool) : MemoryStore :=
  { s with faults := { s.faults with unavailable := value } }

/-- Lets the queries of a collection fail. -/
def failQueries (s : MemoryStore) (c : Collection) : MemoryStore :=
  { s with faults := { s.faults with failingQueries := s.faults.failingQueries.set c true } }

/-- Lets the subscriptions to a collection fail. -/
def failSubscriptions (s : MemoryStore) (c : Collection) : MemoryStore :=
  { s with faults :=
      { s.faults with failingSubscriptions := s.faults.failingSubscriptions.set c true } }

/-- Takes back every fault. -/
def clearFaults (s : MemoryStore) : MemoryStore := { s with faults := {} }

/-- Adds a row and publishes it. -/
def add (s : MemoryStore) (c : Collection) (row : Document) : MemoryStore :=
  { s with rows := s.rows.set c (s.rows.get c ++ [row]) }.publish c (.ok (.inserted row))

/-- Adds a row, as another writer would: without a session, and whatever the faults. A value that is
no object becomes a row that holds it under `value`. -/
def put (s : MemoryStore) (c : Collection) (fresh : String) (value : Json) :
    String × MemoryStore :=
  let doc : Document :=
    match value with
    | .object members => members
    | other => [("value", other)]
  let (id, row) := doc.identified fresh
  (id, s.add c row)

/-- Puts a row in the place of the first one with its id, or at the end, and publishes it. -/
def replace (s : MemoryStore) (c : Collection) (id : String) (row : Document) : MemoryStore :=
  let old? := (s.rows.get c).find? (Document.hasId id)
  { s with rows := s.rows.set c (Document.replaceOrAppend row id (s.rows.get c)) }.publish c
    (.ok (.written old? row))

/-- Opens a session. -/
def openSession (s : MemoryStore) : Except Failure MemoryStore :=
  if s.faults.unavailable then .error (.error (.unavailable "connection refused"))
  else .ok { s with openSessions := s.openSessions + 1 }

/-- Closes a session. -/
def closeSession (s : MemoryStore) : MemoryStore :=
  { s with openSessions := s.openSessions - 1 }

/-- Creates the collections, all of which are always there. -/
def ensure (s : MemoryStore) : Except StoreError Unit × MemoryStore :=
  (if s.faults.unavailable then .error (.unavailable "connection lost") else .ok (), s)

/-- Goes on if the queries of a collection work. -/
def query {α : Type} (s : MemoryStore) (c : Collection) (answer : α) : Except StoreError α :=
  if s.faults.unavailable then .error (.queryFailed c "connection lost")
  else if s.faults.failingQueries.get c then .error (.queryFailed c "injected query failure")
  else .ok answer

/-- Every row of a collection. -/
def scan (s : MemoryStore) (c : Collection) : Except StoreError (List Document) :=
  s.query c (s.rows.get c)

/-- The first row with an id. -/
def get (s : MemoryStore) (c : Collection) (id : String) : Except StoreError (Option Document) :=
  s.query c ((s.rows.get c).find? (Document.hasId id))

/-- The rows that have a value at a key. -/
def filterEq (s : MemoryStore) (c : Collection) (key : String) (value : Json) :
    Except StoreError (List Document) :=
  s.query c ((s.rows.get c).filter (·.hasAt key value))

/-- Adds a row in a session. -/
def insert (s : MemoryStore) (c : Collection) (fresh : String) (doc : Document) :
    Except StoreError (String × MemoryStore) :=
  s.query c ((doc.identified fresh).1, s.add c (doc.identified fresh).2)

/-- Adds or replaces a row in a session. -/
def upsert (s : MemoryStore) (c : Collection) (id : String) (doc : Document) :
    Except StoreError MemoryStore :=
  s.query c (s.replace c id (doc.withId id))

/-- Changes how many streams read a collection. -/
def countReaders (s : MemoryStore) (c : Collection) (f : Nat → Nat) : MemoryStore :=
  { s with feeds := s.feeds.set c { s.feeds.get c with readers := f (s.feeds.get c).readers } }

/-- A stream of what is published from now on. -/
def subscribe (s : MemoryStore) (c : Collection) : Except StoreError (FeedReader × MemoryStore) :=
  if s.faults.unavailable || s.faults.failingSubscriptions.get c then
    .error (.subscriptionFailed c "subscription refused")
  else .ok (⟨c, (s.feeds.get c).published⟩, s.countReaders c (· + 1))

/-- The next item of a stream. An injected failure is an item like any other: the stream goes on
after it. -/
def next (s : MemoryStore) (stream : FeedReader) : Polled FeedReader :=
  match (s.feeds.get stream.collection).read stream.position with
  | none => .pending stream
  | some (item, position) =>
    .item (item.mapError (.subscriptionFailed stream.collection)) { stream with position }

instance : DocumentStore MemoryStore FeedReader where
  backend _ := "memory"
  openSession := openSession
  closeSession := closeSession
  ensure := ensure
  scan := scan
  get := get
  filterEq := filterEq
  insert := insert
  upsert := upsert
  subscribe := subscribe
  next := next
  backlog s stream := (s.feeds.get stream.collection).unread stream.position
  dropStream s stream := s.countReaders stream.collection (· - 1)

end MemoryStore

end TrialBoard
