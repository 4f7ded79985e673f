import Std.Time.DateTime
import TrialBoard.Cli.Run
import TrialBoard.Gateway.Server
import TrialBoard.Gateway.Wire
import TrialBoard.Store.File
import TrialBoard.Text.Uuid

/-!
# The program

The outer layer: the machine that commands run on, and the loops of the server and of a watch. The
server answers requests on the standard input and output.
-/

namespace TrialBoard.Program

/-- Whether something exists at a path. -/
def existsAt (path : String) : IO Bool := do ((← IO.currentDir) / path).pathExists

/-- Whether there is a directory at a path. -/
def isDirectory (path : String) : IO Bool := do ((← IO.currentDir) / path).isDir

/-- The text at a path; that of a directory is empty. -/
def textAt? (path : String) : IO (Option String) := do
  if !(← existsAt path) then return none
  if ← isDirectory path then return some ""
  return some (← IO.FS.readFile path)

/-- The path of the user's settings. -/
def userPath? : IO (Option String) := do
  match ← IO.getEnv "XDG_CONFIG_HOME" with
  | some dir => return some (Cli.joinPath dir "labfeed/config.toml")
  | none => return (← IO.getEnv "HOME").map (Cli.joinPath · ".config/labfeed/config.toml")

/-- The variables that the program was started with. -/
def startVariables : IO Environment := do
  let bytes ← IO.FS.readBinFile "/proc/self/environ"
  let text := (String.fromUTF8? bytes).getD ""
  return (text.splitOn "\x00").filterMap fun entry =>
    match entry.splitOn "=" with
    | name :: value :: values => some (name, "=".intercalate (value :: values))
    | _ => none

/-- The text of the nearest file of variables in a directory or above it. -/
def nearestVariables? : Nat → String → IO (Option String)
  | 0, _ => return none
  | fuel + 1, dir => do
    let path := Cli.joinPath dir ".env"
    if (← existsAt path) && !(← isDirectory path) then return some (← IO.FS.readFile path)
    if dir == "/" then return none
    nearestVariables? fuel (Cli.normalPath (Cli.joinPath dir ".."))

/-- The store in the database at a path. -/
def storeAt (path : String) (names : CollectionNames) : IO TableStore := do
  let unable : TableStore :=
    { path, names, blocked? := some ("unable to open database file: " ++ path) }
  if ← existsAt path then
    if ← isDirectory path then return unable
    match Database.ofText? (← IO.FS.readFile path) with
    | some database => return { path, names, database }
    | none => return { path, names, blocked? := some "file is not a database" }
  if ← isDirectory (Cli.normalPath (Cli.joinPath path "..")) then return { path, names }
  return unable

/-- The machine that the program runs on. -/
def machine : Cli.Host IO where
  here := return (← IO.currentDir).toString
  resolve path := do
    if ← existsAt path then return some (← IO.FS.realPath path).toString
    return none
  text? := textAt?
  userText? := do
    match ← userPath? with
    | some path => textAt? path
    | none => return none
  variablesText? := do nearestVariables? 4096 (← IO.currentDir).toString
  write path text := do
    match ← (IO.FS.writeFile path text).toBaseIO with
    | .ok () => return .ok ()
    | .error e => return .error (toString e)
  environment := startVariables
  openStore := storeAt
  keepStore store := IO.FS.writeFile store.path store.database.toText
  stamp := do
    let now ← Std.Time.Timestamp.now
    let microseconds := (now.toNanosecondsSinceUnixEpoch.toInt / 1000).toNat
    return ⟨(Instant.ofMicroseconds microseconds).microsecondText,
      Text.randomId (← IO.getRandomBytes 16).toList⟩
  bind _ := return .ok ()

/-- The files of a directory, by their paths in it. -/
def filesIn (dir : String) : IO Gateway.Files := do
  let root ← IO.currentDir
  let mut files := []
  for path in ← (root / dir).walkDir do
    if !(← path.isDir) then
      let name := (path.toString.drop ((root / dir).toString.length + 1)).toString
      files := (name, ← IO.FS.readFile path) :: files
  return files

/-- The lines up to an empty one. -/
partial def readHead (input : IO.FS.Stream) : IO (List String) := do
  let line := (← input.getLine).trimAscii.toString
  if line.isEmpty then return []
  return line :: (← readHead input)

/-- Answers requests until the input ends. -/
partial def serveLoop (input output : IO.FS.Stream) (server : Gateway.Server TableStore) :
    IO Unit := do
  match Gateway.Request.ofLines? (← readHead input) with
  | none => return
  | some request =>
    let now := (← Std.Time.Timestamp.now).toMillisecondsSinceUnixEpoch.toInt.toNat
    let store ← storeAt server.store.path server.store.names
    let (response, server) := { server with store }.handle now request
    output.putStr response.wireText
    output.flush
    serveLoop input output server

/-- Shows what changes in a store, again and again. -/
partial def watchLoop (output : IO.FS.Stream) (watch : Cli.Watch) (store : TableStore)
    (interval : UInt32) : IO Unit := do
  let (lines, watch) := watch.follow (← storeAt store.path store.names)
  lines.forM output.putStrLn
  output.flush
  IO.sleep interval
  watchLoop output watch store interval

end TrialBoard.Program

open TrialBoard in
/-- Runs the command line. -/
def main (words : List String) : IO UInt32 := do
  let output ← IO.getStdout
  match ← Cli.start Program.machine words with
  | .finished outcome =>
    output.putStr outcome.output
    output.flush
    match outcome.report? with
    | some report => IO.eprintln report.text
    | none => if outcome.code == 2 then IO.eprintln "Try 'labfeed --help'."
    return outcome.code.toUInt32
  | .serving address settings store =>
    IO.eprintln ("labfeed listening on " ++ address)
    let files? ← settings.staticDir?.mapM Program.filesIn
    let now := (← Std.Time.Timestamp.now).toMillisecondsSinceUnixEpoch.toInt.toNat
    Program.serveLoop (← IO.getStdin) output (.start store settings files? now)
    return 0
  | .watching line watch store config =>
    output.putStrLn line
    output.flush
    Program.watchLoop output watch store (min config.store.pollInterval 0xFFFFFFFF).toUInt32
    return 0
