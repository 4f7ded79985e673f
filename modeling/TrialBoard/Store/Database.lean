import TrialBoard.Config.Basic
import TrialBoard.Store.Extract

/-!
# The database

A database has tables of rows, each an id and a body, and a log of changes. Within a table no two
rows have one id, and the rows keep the order in which they were added. Tables are found by name
without regard to the case of ASCII letters; the names in the log are told apart by every character.

A write changes one table and appends one row to the log, or changes nothing at all. One name is
unlucky: where a row is replaced, the row that could not be added goes by the name of
`refusedName`, and a table of that name comes before it. So the bodies of such a table are replaced
by themselves.
-/

namespace TrialBoard

/-- A row of a table. -/
structure Row where
  id : String
  body : String
deriving DecidableEq

/-- A table. -/
structure Table where
  name : String
  rows : List Row := []
deriving DecidableEq

/-- A row of the log: the number of the change, the table as the writer names it, and the bodies
before and after. -/
structure LogRow where
  seq : Nat
  table : String
  old? : Option String
  new? : Option String
deriving DecidableEq

/-- Whether rows are numbered in rising order, with no number above the last one given out. -/
def IsNumbered (rows : List LogRow) (lastSeq : Nat) : Prop :=
  rows.Pairwise (fun a b => a.seq < b.seq) ∧ ∀ row ∈ rows, row.seq ≤ lastSeq

instance (rows : List LogRow) (lastSeq : Nat) : Decidable (IsNumbered rows lastSeq) :=
  inferInstanceAs (Decidable (_ ∧ _))

theorem isNumbered_append {rows : List LogRow} {lastSeq : Nat} (h : IsNumbered rows lastSeq)
    {row : LogRow} (hrow : row.seq = lastSeq + 1) : IsNumbered (rows ++ [row]) (lastSeq + 1) := by
  refine ⟨List.pairwise_append.2 ⟨h.1, List.pairwise_singleton _ _, ?_⟩, ?_⟩
  · intro a ha b hb
    have := h.2 a ha
    rw [List.mem_singleton.1 hb, hrow]
    omega
  · intro a ha
    rcases List.mem_append.1 ha with ha | ha
    · exact Nat.le_succ_of_le (h.2 a ha)
    · exact Nat.le_of_eq (by rw [List.mem_singleton.1 ha, hrow])

/-- The log of changes. Numbers are never given out twice, and the rows are listed in their order. -/
structure ChangeLog where
  rows : List LogRow := []
  /-- The number of the change that was logged last. -/
  lastSeq : Nat := 0
  /-- Whether the log has its index. -/
  isIndexed : Bool := false
  isNumbered : IsNumbered rows lastSeq := by decide
deriving DecidableEq

/-- A database. -/
structure Database where
  tables : List Table := []
  log? : Option ChangeLog := none
deriving DecidableEq

/-- Why the database refuses a statement. -/
inductive DatabaseError where
  | noSuchTable (name : String)
  /-- The table has a row with the id. -/
  | duplicateId (table : String)
  /-- The name is kept for the database's own use. -/
  | reservedName (name : String)
  /-- The name is that of an index. -/
  | nameOfIndex (name : String)
  /-- The name of the index is that of a table. -/
  | nameOfTable (name : String)
  | extract (fault : ExtractFault)
deriving DecidableEq

/-- The words for an error. -/
def DatabaseError.message : DatabaseError → String
  | noSuchTable name => "no such table: " ++ name
  | duplicateId table => "UNIQUE constraint failed: " ++ table ++ ".id"
  | reservedName name => "object name reserved for internal use: " ++ name
  | nameOfIndex name => "there is already an index named " ++ name
  | nameOfTable name => "there is already a table named " ++ name
  | extract fault => fault.message

/-- The name of the log. -/
def logName : String := "_changes"

/-- The name of the log's index. -/
def logIndexName : String := "idx_changes_collection"

/-- Whether two names are those of one table. -/
def sameName (a b : String) : Bool := a.toLower == b.toLower

/-- What an upsert calls the row that it could not add, and whose body it puts in the place of the
one there is. -/
def refusedName : String := "excluded"

/-- Whether the bodies of a table stay as they are when they are to be replaced: in a table of the
refused row's name, the body of the refused row is the body that is there. -/
def keepsBodies (name : String) : Bool := sameName name refusedName

/-- Whether a name is kept for the database's own use. -/
def isReserved (name : String) : Bool := "sqlite_".toList.isPrefixOf name.toLower.toList

namespace Table

/-- The row with an id. -/
def row? (t : Table) (id : String) : Option Row := t.rows.find? (·.id == id)

/-- Puts a body in the place of the one of its id, unless the table keeps its bodies, or at the
end. -/
def put (t : Table) (row : Row) : Table :=
  if (t.row? row.id).isSome then
    if keepsBodies t.name then t
    else { t with rows := t.rows.map fun r => if r.id = row.id then row else r }
  else { t with rows := t.rows ++ [row] }

/-- A body that is put comes at the end where there is none of its id. Otherwise it comes in the
place of that one, or the table stays as it is. -/
theorem put_cases (t : Table) (row : Row) :
    (t.row? row.id = none ∧ t.put row = { t with rows := t.rows ++ [row] }) ∨
    ∃ old, t.row? row.id = some old ∧
      ((keepsBodies t.name = true ∧ t.put row = t) ∨
        (keepsBodies t.name = false ∧
          t.put row = { t with rows := t.rows.map fun r => if r.id = row.id then row else r })) := by
  unfold put
  cases t.row? row.id with
  | none => exact .inl ⟨rfl, rfl⟩
  | some old =>
    refine .inr ⟨old, rfl, ?_⟩
    cases keepsBodies t.name with
    | true => exact .inl ⟨rfl, rfl⟩
    | false => exact .inr ⟨rfl, rfl⟩

end Table

namespace ChangeLog

/-- Appends a change. -/
def append (log : ChangeLog) (table : String) (old? new? : Option String) : ChangeLog :=
  { log with
    rows := log.rows ++ [{ seq := log.lastSeq + 1, table, old?, new? }]
    lastSeq := log.lastSeq + 1
    isNumbered := isNumbered_append log.isNumbered rfl }

/-- The changes of a table after a number. -/
def after (log : ChangeLog) (table : String) (seq : Nat) : List LogRow :=
  log.rows.filter fun row => row.table == table && seq < row.seq

/-- The number of the last change of a table, zero if there is none. -/
def lastOf (log : ChangeLog) (table : String) : Nat :=
  ((log.rows.filter (·.table == table)).map (·.seq)).foldl max 0

end ChangeLog

namespace Database

/-- The database without tables. -/
def empty : Database := {}

/-- The table of a name. -/
def table? (db : Database) (name : String) : Option Table := db.tables.find? (sameName name ·.name)

/-- The table of a name, which has to be there. -/
def table (db : Database) (name : String) : Except DatabaseError Table :=
  match db.table? name with
  | some t => .ok t
  | none => .error (.noSuchTable name)

/-- The log, which has to be there. -/
def log (db : Database) : Except DatabaseError ChangeLog :=
  match db.log? with
  | some log => .ok log
  | none => .error (.noSuchTable logName)

/-- Puts a table in the place of the one of its name. -/
def setTable (db : Database) (t : Table) : Database :=
  { db with tables := db.tables.map fun other => if sameName t.name other.name then t else other }

/-- Takes a table away. -/
def dropTable (db : Database) (name : String) : Except DatabaseError Database := do
  let _ ← db.table name
  return { db with tables := db.tables.filter fun t => !sameName name t.name }

/-- Takes the log away. -/
def dropLog (db : Database) : Except DatabaseError Database := do
  let _ ← db.log
  return { db with log? := none }

/-- Creates a table, unless it is there. -/
def createTable (db : Database) (name : String) : Except DatabaseError Database :=
  if isReserved name then .error (.reservedName name)
  else if (db.table? name).isSome then .ok db
  else if db.log?.any (·.isIndexed) && sameName name logIndexName then .error (.nameOfIndex name)
  else .ok { db with tables := db.tables ++ [{ name }] }

/-- Creates tables one after the other, up to the first that cannot be created. -/
def createTables (db : Database) : List String → Except DatabaseError Unit × Database
  | [] => (.ok (), db)
  | name :: names =>
    match db.createTable name with
    | .ok db => createTables db names
    | .error e => (.error e, db)

/-- Creates the log and its index, unless they are there. -/
def createLog (db : Database) : Except DatabaseError Unit × Database :=
  let log := db.log?.getD {}
  if (db.table? logIndexName).isSome then
    (.error (.nameOfTable logIndexName), { db with log? := some log })
  else (.ok (), { db with log? := some { log with isIndexed := true } })

/-- Creates the tables of the collections, and the log. -/
def ensure (db : Database) (names : CollectionNames) : Except DatabaseError Unit × Database :=
  match db.createTables names.toList with
  | (.ok (), db) => db.createLog
  | failed => failed

/-- Every body of a table, in order. -/
def bodies (db : Database) (name : String) : Except DatabaseError (List String) := do
  return (← db.table name).rows.map (·.body)

/-- The body of an id. -/
def body? (db : Database) (name id : String) : Except DatabaseError (Option String) := do
  return ((← db.table name).row? id).map (·.body)

/-- The bodies of a table that have a scalar at a key, in order. -/
def bodiesWith (db : Database) (name key : String) (scalar : Scalar) :
    Except DatabaseError (List String) := do
  match Extract.select key scalar (← db.bodies name) with
  | .ok selected => return selected
  | .error fault => throw (.extract fault)

/-- Adds a row behind the back of the log. -/
def addRow (db : Database) (name : String) (row : Row) : Except DatabaseError Database := do
  let t ← db.table name
  if (t.row? row.id).isSome then throw (.duplicateId t.name)
  return db.setTable { t with rows := t.rows ++ [row] }

/-- Appends a change to the log. -/
def appendChange (db : Database) (name : String) (old? new? : Option String) :
    Except DatabaseError Database := do
  return { db with log? := some ((← db.log).append name old? new?) }

/-- Adds a row and logs it. -/
def insert (db : Database) (name : String) (row : Row) : Except DatabaseError Database := do
  (← db.addRow name row).appendChange name none (some row.body)

/-- Adds a row, or replaces the body of its id, and logs it. Also where the table keeps the body
there is, the log tells the new one. -/
def upsert (db : Database) (name : String) (row : Row) : Except DatabaseError Database := do
  let t ← db.table name
  (db.setTable (t.put row)).appendChange name ((t.row? row.id).map (·.body)) (some row.body)

end Database

end TrialBoard
