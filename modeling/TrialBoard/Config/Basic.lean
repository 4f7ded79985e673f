import TrialBoard.Collection

/-!
# Settings

The settings say where the store lies, how its tables are named, and how the server listens.
`Config.fault?` finds the first thing the program cannot run with; the names of the tables are asked
first.
-/

namespace TrialBoard

/-- The name of the table of each collection. -/
abbrev CollectionNames := ByCollection String

/-- The settings of the store. -/
structure StoreSettings where
  /-- Where the database lies. -/
  path : String := "labfeed.db"
  /-- How often a change stream looks for changes, in milliseconds. -/
  pollInterval : Nat := 250
  names : CollectionNames := ByCollection.ofFn Collection.name
deriving DecidableEq

/-- The settings of the server. -/
structure ServerSettings where
  host : String := "127.0.0.1"
  port : Nat := 3000
  /-- The directory of files that are served where no route matches. -/
  staticDir? : Option String := none
  /-- How many push connections there may be. -/
  maxConnections : Nat := 1024
  /-- How many changes may wait for one push connection. -/
  feedBuffer : Nat := 64
deriving DecidableEq

/-- All settings. -/
structure Config where
  store : StoreSettings := {}
  server : ServerSettings := {}
deriving DecidableEq

/-- What is wrong with the settings. -/
inductive ConfigFault where
  /-- A table's name is not an identifier. -/
  | badName (collection : Collection) (name : String)
  /-- Two tables have one name. -/
  | nameUsedTwice (name : String)
  /-- A number is zero. -/
  | notPositive (setting : String)
  /-- There is no file at the path. -/
  | missingFile (path : String)
deriving DecidableEq

/-- The words for a fault. -/
def ConfigFault.describe : ConfigFault → String
  | badName collection name =>
    "collection name for " ++ collection.name ++ " must be a non-empty identifier of [A-Za-z0-9_] "
      ++ "not starting with '_', got '" ++ name ++ "'"
  | nameUsedTwice name => "collection name '" ++ name ++ "' is used twice"
  | notPositive setting => setting ++ " must be greater than zero"
  | missingFile path => "config file not found: " ++ path

/-- Why settings could not be had. -/
inductive ConfigError where
  /-- They cannot be run with. -/
  | invalid (reason : String)
  /-- They cannot be read. -/
  | unreadable (reason : String)

/-- The words for an error. -/
def ConfigError.message : ConfigError → String
  | invalid reason => "Invalid configuration: " ++ reason
  | unreadable reason => "Configuration parse error: " ++ reason

/-- Whether a character may stand in a table's name. -/
def isNameChar (c : Char) : Bool := c.isAlphanum || c == '_'

/-- Whether a text can be a table's name: an identifier that does not start with an underscore. -/
def isTableName (name : String) : Bool :=
  match name.toList with
  | [] => false
  | c :: cs => c != '_' && (c :: cs).all isNameChar

namespace CollectionNames

/-- The first fault of the names of some collections, after the names already seen. -/
def faultFrom (names : CollectionNames) : List String → List Collection → Option ConfigFault
  | _, [] => none
  | seen, c :: cs =>
    if isTableName (names.get c) = false then some (.badName c (names.get c))
    else if names.get c ∈ seen then some (.nameUsedTwice (names.get c))
    else faultFrom names (names.get c :: seen) cs

/-- The first fault of the names: each has to be a table's name, and no two may be the same. -/
def fault? (names : CollectionNames) : Option ConfigFault := faultFrom names [] Collection.all

end CollectionNames

namespace Config

/-- The first fault of the settings. -/
def fault? (config : Config) : Option ConfigFault :=
  match CollectionNames.fault? config.store.names with
  | some fault => some fault
  | none =>
    if config.store.pollInterval = 0 then some (.notPositive "store.poll_interval_ms")
    else if config.server.feedBuffer = 0 then some (.notPositive "server.feed_buffer")
    else if config.server.maxConnections = 0 then some (.notPositive "server.max_connections")
    else none

/-- The settings, if they can be run with. -/
def validate (config : Config) : Except ConfigError Config :=
  match config.fault? with
  | some fault => .error (.invalid fault.describe)
  | none => .ok config

end Config

end TrialBoard
