import TrialBoard.Json.Printer
import TrialBoard.Store.Tail

/-!
# The store in a database

The rows of a collection are JSON texts in the table that the settings name for it. Bodies are read
when they are asked for, so a body that another writer left unreadable fails the reads that meet it.
-/

namespace TrialBoard

/-- A store in a database that lies at a path. -/
structure TableStore where
  path : String
  names : CollectionNames
  database : Database := .empty
  /-- Why the database cannot be opened. -/
  blocked? : Option String := none

namespace TableStore

/-- The row that a body holds, or why it holds none. -/
def readBody (body : String) : Except String Document :=
  match Json.parse body with
  | .ok (.object members) => .ok members
  | .ok other => .error ("stored row is not an object: " ++ other.render)
  | .error e => .error ("stored row is not valid JSON: " ++ e.message)

/-- The table of a collection. -/
def tableName (s : TableStore) (c : Collection) : String := s.names.get c

/-- Opens a session. -/
def openSession (s : TableStore) : Except Failure TableStore :=
  match s.blocked? with
  | some reason => .error (.error (.unavailable (s.path ++ ": " ++ reason)))
  | none => .ok s

/-- What the database answers, as the store answers it. -/
def answer {α : Type} (c : Collection) : Except DatabaseError α → Except StoreError α
  | .ok value => .ok value
  | .error e => .error (.queryFailed c e.message)

/-- Creates the tables and the log. -/
def ensure (s : TableStore) : Except StoreError Unit × TableStore :=
  match s.database.ensure s.names with
  | (.ok (), database) => (.ok (), { s with database })
  | (.error e, database) =>
    (.error (.unavailable ("collection setup failed: " ++ e.message)), { s with database })

/-- The rows of bodies, up to the first that holds none. -/
def readBodies (c : Collection) (bodies : List String) : Except StoreError (List Document) :=
  match bodies.mapM readBody with
  | .ok rows => .ok rows
  | .error reason => .error (.queryFailed c reason)

/-- Every row of a collection. -/
def scan (s : TableStore) (c : Collection) : Except StoreError (List Document) := do
  readBodies c (← answer c (s.database.bodies (s.tableName c)))

/-- The row of an id. -/
def get (s : TableStore) (c : Collection) (id : String) : Except StoreError (Option Document) := do
  match ← answer c (s.database.body? (s.tableName c) id) with
  | none => return none
  | some body =>
    match readBody body with
    | .ok row => return some row
    | .error reason => throw (.queryFailed c reason)

/-- The bodies that may have a value at a key: those in which the database finds it, where it is a
scalar, and otherwise all of them. -/
def candidates (s : TableStore) (c : Collection) (key : String) (value : Json) :
    Except DatabaseError (List String) :=
  match Scalar.ofJson value with
  | some scalar => s.database.bodiesWith (s.tableName c) key scalar
  | none => s.database.bodies (s.tableName c)

/-- The rows that have a value at a key. The database only narrows them down; whether the values are
the same is asked of the rows. -/
def filterEq (s : TableStore) (c : Collection) (key : String) (value : Json) :
    Except StoreError (List Document) := do
  let rows ← readBodies c (← answer c (s.candidates c key value))
  return rows.filter (·.hasAt key value)

/-- The row of a table that a document becomes. -/
def rowOf (id : String) (doc : Document) : Row := { id, body := (Json.object doc).render }

/-- Adds a row. -/
def insert (s : TableStore) (c : Collection) (fresh : String) (doc : Document) :
    Except StoreError (String × TableStore) := do
  let (id, doc) := doc.identified fresh
  let database ← answer c (s.database.insert (s.tableName c) (rowOf id doc))
  return (id, { s with database })

/-- Adds or replaces a row. -/
def upsert (s : TableStore) (c : Collection) (id : String) (doc : Document) :
    Except StoreError TableStore := do
  let database ← answer c (s.database.upsert (s.tableName c) (rowOf id (doc.withId id)))
  return { s with database }

/-- A tail of the changes from now on. -/
def subscribe (s : TableStore) (c : Collection) : Except StoreError (Tail × TableStore) :=
  match s.database.log with
  | .ok log =>
    let table := s.tableName c
    .ok ({ collection := c, table, cursor := log.lastOf table }, s)
  | .error e => .error (.subscriptionFailed c e.message)

instance : DocumentStore TableStore Tail where
  backend _ := "sqlite"
  openSession := openSession
  closeSession s := s
  ensure := ensure
  scan := scan
  get := get
  filterEq := filterEq
  insert := insert
  upsert := upsert
  subscribe := subscribe
  next s := Tail.next s.database
  backlog s := Tail.backlog s.database
  dropStream s _ := s

end TableStore

end TrialBoard
