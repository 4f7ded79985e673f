import TrialBoard.Config.Setting

/-!
# The tables of a TOML document

A document builds a tree of tables. A table is defined once: by its header, or by the dotted keys
that put entries into it; a header that only leads to a longer one implies a table, which may still
be defined. A header in double brackets starts a new table of an array, and paths lead into the last
table of an array. A key is set once.
-/

namespace TrialBoard.Toml

/-- How a table came to be. -/
inductive Origin where
  /-- By a header of its own, or as the value of a key. -/
  | defined
  /-- By a header that leads through it. -/
  | implied
  /-- By a dotted key that leads through it. -/
  | dotted
deriving DecidableEq

/-- A part of the tree while it grows. -/
inductive Node where
  | value (setting : Setting)
  | table (origin : Origin) (entries : List (String × Node))
  /-- An array of tables: those finished, and the last one. -/
  | tables (finished : List Setting) (current : List (String × Node))

namespace Node

mutual

/-- The setting a part of the tree stands for. -/
def toSetting : Node → Setting
  | value setting => setting
  | table _ entries => .table (entriesToSettings entries)
  | tables finished current => .list (finished ++ [.table (entriesToSettings current)])

/-- The settings that entries stand for. -/
def entriesToSettings : List (String × Node) → List (String × Setting)
  | [] => []
  | (name, node) :: entries => (name, node.toSetting) :: entriesToSettings entries

end

end Node

/-- The entries of a table while it grows. -/
abbrev Entries := List (String × Node)

namespace Entries

/-- Changes the node at a name, if it may be changed. -/
def alter (name : String) (change : Option Node → Option Node) : Entries → Option Entries
  | [] => (change none).map fun node => [(name, node)]
  | (n, node) :: rest =>
    if n = name then (change (some node)).map fun node => (n, node) :: rest
    else (alter name change rest).map ((n, node) :: ·)

/-- Changes the table at the end of a path. Where there is no table on the way, one is made. A
dotted key may not lead through a table that is defined. -/
def within (isDotted : Bool) (change : Origin → Entries → Option Entries) :
    List String → Origin → Entries → Option Entries
  | [], origin, entries => change origin entries
  | name :: path, _, entries =>
    entries.alter name fun
      | none =>
        let origin := if isDotted then Origin.dotted else .implied
        (within isDotted change path origin []).map (Node.table origin)
      | some (.table origin inner) =>
        if isDotted && origin == .defined then none
        else (within isDotted change path origin inner).map (Node.table origin)
      | some (.tables finished current) =>
        (within isDotted change path .defined current).map (Node.tables finished)
      | some (.value _) => none

/-- Sets a key that is new. -/
def add (name : String) (setting : Setting) (entries : Entries) : Option Entries :=
  entries.alter name fun
    | none => some (.value setting)
    | some _ => none

/-- Sets a key under a path of dotted keys, in a table of the given origin. Only a dotted key adds
to a table that dotted keys made. -/
def set (path : List String) (name : String) (setting : Setting) (origin : Origin)
    (entries : Entries) : Option Entries :=
  within true (fun origin entries =>
    if (origin == .dotted) == path.isEmpty then none else entries.add name setting)
    path origin entries

/-- Defines the table of a header. -/
def define (path : List String) (name : String) (entries : Entries) : Option Entries :=
  within false (fun _ entries => entries.alter name fun
    | none => some (.table .defined [])
    | some (.table .implied inner) => some (.table .defined inner)
    | some _ => none) path .defined entries

/-- Starts the next table of an array. -/
def append (path : List String) (name : String) (entries : Entries) : Option Entries :=
  within false (fun _ entries => entries.alter name fun
    | none => some (.tables [] [])
    | some (.tables finished current) =>
      some (.tables (finished ++ [.table (Node.entriesToSettings current)]) [])
    | some _ => none) path .defined entries

end Entries

end TrialBoard.Toml
