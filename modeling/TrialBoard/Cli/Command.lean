import TrialBoard.Cli.Help

/-!
# The command line of the program

`Request.ofWords` says what a command line asks for. A payload stays text here: it is read as
JSON by the command, after the store was opened.
-/

namespace TrialBoard.Cli

/-- What is recorded. -/
inductive RecordRequest where
  | experiment (meta? : Option String)
  | transformation (experiment version : String) (data? : Option String)
  | test (experiment version : String) (data? : Option String)
  | analytics (experiment : String) (data? : Option String)

/-- What a command does. -/
inductive Command where
  | serve (host? : Option String) (port? : Option Nat) (staticDir? : Option String)
  /-- Creates the collections. -/
  | setUp
  | record (request : RecordRequest)
  | watch
  /-- Writes the default settings into the workspace. -/
  | writeConfig
  | showConfig

/-- A command, and where it finds the workspace and settings. -/
structure Invocation where
  workspace : String
  config? : Option String
  command : Command

/-- What a command line asks for. -/
inductive Request where
  | run (invocation : Invocation)
  /-- A text is shown. -/
  | display (text : String)
  /-- The command line is wrong. -/
  | misuse

/-- The name and version of the program. -/
def versionLine : String := "labfeed 0.3.0\n"

/-! ## Options -/

/-- A value that may be anything. -/
def anyText : OptionKind := .value fun _ => true

/-- A value that is a path. -/
def pathText : OptionKind := .value fun s => s != ""

/-- A port, perhaps with a plus sign. -/
def port? (s : String) : Option Nat :=
  let digits : List Char := match s.toList with
    | '+' :: rest => rest
    | cs => cs
  let n : Nat := digits.foldl (fun n c => n * 10 + (c.toNat - '0'.toNat)) 0
  if digits.isEmpty = false ∧ digits.all Char.isDigit ∧ n < 0x10000 then some n else none

/-- The option that names the experiment. -/
def experimentOption : OptionSpec :=
  { long := "experiment", short? := some 'e', kind := anyText, isRequired := true }

/-- The command that records something. -/
def recordSpec : CommandSpec :=
  .mk "record" "Record experiment data" [.help]
    [ .mk "experiment" "Record a new experiment and print its id"
        [ { long := "meta", kind := anyText, description := "Experiment metadata as a JSON object" },
          .help ] [],
      .mk "transformation" "Record a transformation of an experiment"
        [ experimentOption,
          { long := "version-name", kind := anyText, isRequired := true },
          { long := "data", kind := anyText, description := "Transformation payload as JSON" },
          .help ] [],
      .mk "test" "Record a test run of an experiment"
        [ experimentOption,
          { long := "version", kind := anyText, isRequired := true },
          { long := "data", kind := anyText,
            description := "Test data as JSON, e.g. \x7b\"results\":[\x7b\"correct\":true\x7d]\x7d" },
          .help ] [],
      .mk "analytics" "Record analytics for an experiment"
        [ experimentOption,
          { long := "data", kind := anyText, description := "Analytics payload as JSON" },
          .help ] [] ]

/-- The program's commands. -/
def programSpec : CommandSpec :=
  .mk "labfeed" "labfeed CLI - serve the experiment dashboard API and record experiment data"
    [ { long := "workspace", short? := some 'w', kind := pathText, default? := some "."
        description := "Workspace directory (holds labfeed.toml and relative store paths)" },
      { long := "config", short? := some 'c', kind := pathText
        description := "Configuration file path" },
      { long := "verbose", short? := some 'v', kind := .counter
        description := "Increase verbosity (-v, -vv)" },
      { long := "quiet", short? := some 'q', kind := .switch
        description := "Suppress non-essential output" },
      .help,
      { long := "version", short? := some 'V', kind := .version, description := "Print version" } ]
    [ .mk "serve" "Serve the HTTP API, the push channel and the dashboard files"
        [ { long := "host", kind := anyText, description := "Host to bind to" },
          { long := "port", short? := some 'p', kind := .value fun s => (port? s).isSome
            description := "Port to listen on" },
          { long := "static-dir", kind := pathText
            description := "Directory of static front-end files" },
          .help ] [],
      .mk "init" "Create the store and its collections" [.help] [],
      recordSpec,
      .mk "watch" "Follow the change feed and print dashboard updates" [.help] [],
      .mk "config" "Manage configuration" [.help]
        [ .mk "init" "Write a default labfeed.toml into the workspace" [.help] [],
          .mk "show" "Print the effective configuration" [.help] [] ] ]

/-! ## Requests -/

/-- The value given to an option. -/
def Given.value? (given : Given) (long : String) : Option String := List.lookup long given

/-- The value given to an option that is required. -/
def Given.value (given : Given) (long : String) : String := (given.value? long).getD ""

/-- What is recorded by a command of some name with some options. -/
def RecordRequest.ofGiven? (name : String) (given : Given) : Option RecordRequest :=
  match name with
  | "experiment" => some (.experiment (given.value? "meta"))
  | "transformation" =>
    some (.transformation (given.value "experiment") (given.value "version-name")
      (given.value? "data"))
  | "test" =>
    some (.test (given.value "experiment") (given.value "version") (given.value? "data"))
  | "analytics" => some (.analytics (given.value "experiment") (given.value? "data"))
  | _ => none

/-- The command at the end of a line of commands. -/
def Command.ofGiven? : List (String × Given) → Option Command
  | [("serve", given)] =>
    some (.serve (given.value? "host") ((given.value? "port").bind port?)
      (given.value? "static-dir"))
  | [("init", _)] => some .setUp
  | [("record", _), (name, given)] => (RecordRequest.ofGiven? name given).map .record
  | [("watch", _)] => some .watch
  | [("config", _), ("init", _)] => some .writeConfig
  | [("config", _), ("show", _)] => some .showConfig
  | _ => none

/-- What the words of a command line ask for. -/
def Request.ofWords (words : List String) : Request :=
  match programSpec.read words with
  | .error .misuse => .misuse
  | .error .version => .display versionLine
  | .error (.help path) => .display (helpText path)
  | .ok [] => .misuse
  | .ok ((_, given) :: below) =>
    match Command.ofGiven? below with
    | some command =>
      .run
        { workspace := (given.value? "workspace").getD "."
          config? := given.value? "config"
          command }
    | none => .misuse

end TrialBoard.Cli
