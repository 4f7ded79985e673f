import TrialBoard.Json.Printer
import TrialBoard.Json.Reader
import TrialBoard.Store.Database

/-!
# A database as a text

A database is kept as one JSON object with its tables and its log.
-/

namespace TrialBoard

namespace Database

/-- A text or nothing. -/
def textOrNull (s? : Option String) : Json := (s?.map .string).getD .null

/-- A table as JSON. -/
def tableToJson (t : Table) : Json :=
  .object
    [ ("name", .string t.name),
      ("rows", .array (t.rows.map fun row => .array [.string row.id, .string row.body])) ]

/-- The log as JSON. -/
def logToJson (log : ChangeLog) : Json :=
  .object
    [ ("rows", .array (log.rows.map fun row =>
        .array [.ofNat row.seq, .string row.table, textOrNull row.old?, textOrNull row.new?])),
      ("last", .ofNat log.lastSeq), ("indexed", .bool log.isIndexed) ]

/-- The text of a database. -/
def toText (db : Database) : String :=
  (Json.object
    [ ("tables", .array (db.tables.map tableToJson)),
      ("log", (db.log?.map logToJson).getD .null) ]).render ++ "\n"

/-- The items of an array. -/
def items? : Json → Option (List Json)
  | .array items => some items
  | _ => none

/-- A natural number. -/
def natural? : Json → Option Nat
  | .number (.integer i _) => if 0 ≤ i then some i.toNat else none
  | _ => none

/-- A text that may be missing. -/
def maybeText? : Json → Option (Option String)
  | .null => some none
  | .string s => some (some s)
  | _ => none

/-- A row from its JSON. -/
def rowOfJson? : Json → Option Row
  | .array [.string id, .string body] => some { id, body }
  | _ => none

/-- A table from its JSON. -/
def tableOfJson? (j : Json) : Option Table := do
  let name ← (← j.member? "name").asString?
  let rows ← (← items? (← j.member? "rows")).mapM rowOfJson?
  return { name, rows }

/-- A row of the log from its JSON. -/
def logRowOfJson? : Json → Option LogRow
  | .array [seq, .string table, old, new] => do
    return { seq := ← natural? seq, table, old? := ← maybeText? old, new? := ← maybeText? new }
  | _ => none

/-- The log from its JSON. -/
def logOfJson? : Json → Option (Option ChangeLog)
  | .null => some none
  | j => do
    let rows ← (← items? (← j.member? "rows")).mapM logRowOfJson?
    let lastSeq ← natural? (← j.member? "last")
    let isIndexed := j.member? "indexed" == some (.bool true)
    if h : IsNumbered rows lastSeq then return some { rows, lastSeq, isIndexed, isNumbered := h }
    else none

/-- The database of a text. The empty text is the database without tables. -/
def ofText? (text : String) : Option Database :=
  if text.isEmpty then some .empty
  else
    match Json.parse text with
    | .error _ => none
    | .ok j => do
      let tables ← (← items? (← j.member? "tables")).mapM tableOfJson?
      return { tables, log? := ← logOfJson? (← j.member? "log") }

end Database

end TrialBoard
