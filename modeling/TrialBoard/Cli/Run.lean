import TrialBoard.Cli.Command
import TrialBoard.Cli.Dotenv
import TrialBoard.Cli.Host
import TrialBoard.Cli.Location
import TrialBoard.Cli.Report
import TrialBoard.Cli.Watch
import TrialBoard.Config.Document
import TrialBoard.Config.Load
import TrialBoard.Error

/-!
# Running commands

`start` runs a command line. Most commands finish at once with an `Outcome`; a server and a watch go
on, and what started is given back to be driven further.

Settings are loaded first, then the store is opened and its collections are created, and only then
is a payload read.
-/

namespace TrialBoard.Cli

/-- How a command ended. -/
structure Outcome where
  code : Nat
  output : String := ""
  report? : Option Report := none

namespace Outcome

/-- A command that did what it was asked for. -/
def done (output : String) : Outcome := { code := 0, output }

/-- A command that failed, with the causes of its failure. -/
def failed (causes : List String) : Outcome := { code := 1, report? := some (.ofCauses causes) }

/-- A command that broke down. -/
def crashed : Outcome := { code := 101 }

/-- A command line that is wrong. -/
def misused : Outcome := { code := 2 }

end Outcome

/-- What a command line started. -/
inductive Started where
  | finished (outcome : Outcome)
  /-- A server that listens at an address. -/
  | serving (address : String) (settings : ServerSettings) (store : TableStore)
  /-- A watch, with the first line that it shows and the store that it follows. -/
  | watching (line : String) (watch : Watch) (store : TableStore) (config : Config)

/-- The name of the workspace's settings. -/
def configName : String := "labfeed.toml"

/-- The words for a failure of a store. -/
def failureMessage : Failure → String
  | .error e => e.message
  | .crash message? => message?.getD "Unknown panic"

/-- The JSON value of a payload; an object without members where there is none. -/
def payload (option : String) : Option String → Except (List String) Json
  | none => .ok (.object [])
  | some text =>
    match Json.parse text with
    | .ok value => .ok value
    | .error e => .error ["--" ++ option ++ " is not valid JSON", e.message]

/-- What a request records. -/
def RecordRequest.entry : RecordRequest → Except (List String) Recorder.Entry
  | experiment meta? => (payload "meta" meta?).map .experiment
  | transformation id version data? => (payload "data" data?).map (.transformation id version)
  | test id version data? => (payload "data" data?).map (.test id version)
  | analytics id data? => (payload "data" data?).map (.analytics id)

/-- The settings of the server with those that the command line overrides. -/
def overridden (settings : ServerSettings) (host? : Option String) (port? : Option Nat)
    (staticDir? : Option String) : ServerSettings :=
  { settings with
    host := host?.getD settings.host
    port := port?.getD settings.port
    staticDir? := staticDir?.or settings.staticDir? }

/-- What the program says once the collections exist. -/
def readyText (names : CollectionNames) : String :=
  "Store ready with collections:\n"
    ++ String.join (Collection.all.map fun c => "  " ++ c.name ++ " -> " ++ names.get c ++ "\n")

/-! ## Commands -/

section

variable {m : Type → Type} [Monad m] (host : Host m)

/-- The settings for a workspace. -/
def loadConfig (workspace : String) (config? : Option String) : m (Except ConfigError Config) := do
  let user? ← host.userText?
  let workspace? ← host.text? (joinPath workspace configName)
  let explicit? ← match config? with
    | none => pure none
    | some path => do
      let here ← host.here
      let text? ← host.text? (joinPath here path)
      pure (some (path, text?))
  let given ← host.environment
  let environment := match ← host.variablesText? with
    | some text => Dotenv.apply text given
    | none => given
  return Config.load { user?, workspace?, explicit?, environment }

/-- The store of a workspace. -/
def workspaceStore (workspace : String) (config : Config) : m TableStore :=
  host.openStore (joinPath workspace config.store.path) config.store.names

/-- Opens the store and creates its collections. The failures of the two steps are told apart. -/
def prepareStore (store : TableStore) : m (Except (Failure ⊕ StoreError) TableStore) := do
  match store.openSession with
  | .error failure => return .error (.inl failure)
  | .ok opened =>
    let (result, prepared) := opened.ensure
    host.keepStore prepared
    match result with
    | .ok () => return .ok prepared
    | .error e => return .error (.inr e)

/-- Creates the collections. -/
def setUp (workspace : String) (config : Config) : m Outcome := do
  match ← prepareStore host (← workspaceStore host workspace config) with
  | .error (.inl failure) => return .failed [failureMessage failure]
  | .error (.inr e) => return .failed ["Failed to create collections", e.message]
  | .ok _ => return .done (readyText config.store.names)

/-- The words for what keeps a store from being prepared. -/
def prepareMessage : Failure ⊕ StoreError → String
  | .inl failure => failureMessage failure
  | .inr e => e.message

/-- Records something and shows its id. -/
def record (workspace : String) (config : Config) (request : RecordRequest) : m Outcome := do
  match ← prepareStore host (← workspaceStore host workspace config) with
  | .error failure => return .failed [prepareMessage failure]
  | .ok store =>
    match request.entry with
    | .error causes => return .failed causes
    | .ok entry =>
      let stamp ← host.stamp
      match Recorder.record store stamp entry with
      | (.ok id, store) =>
        host.keepStore store
        return .done (id ++ "\n")
      | (.error failure, _) => return .failed [failureMessage failure]

/-- Starts the server. -/
def serve (workspace : String) (config : Config) : m Started := do
  let failed (e : ProgramError) : Started := .finished (.failed ("Server failed" :: e.causes))
  match ← prepareStore host (← workspaceStore host workspace config) with
  | .error (.inl failure) => return failed (.ofFailure failure)
  | .error (.inr e) => return failed (.store e)
  | .ok store =>
    let address := config.server.host ++ ":" ++ toString config.server.port
    match ← host.bind address with
    | .ok () => return .serving address config.server store
    | .error reason => return failed (.io reason)

/-- Starts a watch. -/
def watch (workspace : String) (config : Config) : m Started := do
  match ← prepareStore host (← workspaceStore host workspace config) with
  | .error failure => return .finished (.failed [prepareMessage failure])
  | .ok store =>
    if !Channel.isCapacity config.server.feedBuffer then return .finished .crashed
    match Watch.start store config.server.feedBuffer with
    | none => return .finished (.failed ["Could not subscribe to the store"])
    | some (.error failure) => return .finished (.failed [failureMessage failure])
    | some (.ok w) => return .watching w.dashboard.summary w store config

/-- Writes the default settings, unless the workspace has settings. -/
def writeConfig (workspace : String) : m Outcome := do
  let path := joinPath workspace configName
  match ← host.text? path with
  | some _ => return .done ("Configuration file already exists at: " ++ path ++ "\n")
  | none =>
    match ({} : Config).toToml with
    | .error reason => return .failed [reason]
    | .ok text =>
      match ← host.write path text with
      | .ok () => return .done ("Created default configuration at: " ++ path ++ "\n")
      | .error reason => return .failed [reason]

/-- The settings as they are shown. -/
def showConfig (config : Config) : Outcome :=
  match config.toToml with
  | .ok text => .done (text ++ "\n")
  | .error reason => .failed [reason]

/-- Runs a command with the settings of its workspace. -/
def runWith (workspace : String) (config : Config) : Command → m Started
  | .serve host? port? staticDir? =>
    serve host workspace { config with server := overridden config.server host? port? staticDir? }
  | .setUp => .finished <$> setUp host workspace config
  | .record request => .finished <$> record host workspace config request
  | .watch => watch host workspace config
  | .writeConfig => .finished <$> writeConfig host workspace
  | .showConfig => return .finished (showConfig config)

/-- Runs what a command line asks for. A workspace that does not exist is taken to be the current
directory. -/
def run (invocation : Invocation) : m Started := do
  let here ← host.here
  let workspace := (← host.resolve (joinPath here invocation.workspace)).getD here
  match invocation.command with
  | .writeConfig => .finished <$> writeConfig host workspace
  | command =>
    match ← loadConfig host workspace invocation.config? with
    | .error e => return .finished (.failed ["Configuration error: " ++ e.message])
    | .ok config => runWith host workspace config command

/-- Runs a command line. -/
def start (words : List String) : m Started :=
  match Request.ofWords words with
  | .misuse => return .finished .misused
  | .display text => return .finished (.done text)
  | .run invocation => run host invocation

end

end TrialBoard.Cli
