import TrialBoard.Error
import TrialBoard.Gateway.Envelope
import TrialBoard.Gateway.Files
import TrialBoard.Gateway.Registry
import TrialBoard.Query
import TrialBoard.Time.Instant

/-!
# The server

The server answers requests over one store. Whatever becomes of a question to the store, the status
of the response is 200 and the envelope tells; only a store that breaks down makes it 500. Moments
are milliseconds since 1970.
-/

namespace TrialBoard.Gateway

/-- A server over a store. -/
structure Server (σ : Type) where
  store : σ
  registry : Registry
  /-- How many changes may wait for one push connection. -/
  feedBuffer : Nat
  files? : Option Files := none
  startedAt : Nat := 0

namespace Server

variable {σ τ : Type} [DocumentStore σ τ]

/-- A server that nobody is connected to. -/
def start (store : σ) (settings : ServerSettings) (files? : Option Files) (now : Nat) :
    Server σ :=
  { store, registry := { limit := settings.maxConnections }, feedBuffer := settings.feedBuffer
    files?, startedAt := now }

/-- The response where the store broke down. -/
def crashed (message? : Option String) : Response :=
  .json 500 (.object [("err", .string (message?.getD "Unknown panic"))])

/-- The response to a question. -/
def respond {α : Type} (encode : α → Json) : Except Failure α → Response
  | .ok answer => .json 200 ((Envelope.success (some answer)).toJson encode)
  | .error (.error e) => .json 200 ((Envelope.failure e.message : Envelope α).toJson encode)
  | .error (.crash message?) => crashed message?

/-- The answer to the question for all experiments. -/
def listExperiments (server : Server σ) : Response × Server σ :=
  let (answer, store) := Query.list server.store
  (respond Detail.rowsToJson answer, { server with store })

/-- The answer to the question for one experiment. -/
def showExperiment (server : Server σ) (id : String) : Response × Server σ :=
  let (answer, store) := Query.detail server.store id
  (respond (fun detail => (detail.map Detail.toJson).getD .null) answer, { server with store })

/-- The state of the server. -/
def health (server : Server σ) (now : Nat) : Json :=
  let seconds (moment : Nat) : Json := .ofNat ((now - moment) / 1000)
  .object
    [ ("connections", .ofNat server.registry.count),
      ("last_activity",
        (server.registry.lastActivity?.map fun t =>
          Json.string (Instant.ofMilliseconds t).text).getD .null),
      ("max_connections", .ofNat server.registry.limit),
      ("oldest_connection_secs", (server.registry.oldest?.map seconds).getD .null),
      ("status", .string "ok"),
      ("store", .string (DocumentStore.backend server.store)),
      ("uptime_secs", seconds server.startedAt) ]

/-- Why a request for the push channel cannot be granted: the first thing that it lacks. A request
that lacks nothing still needs a connection that can be taken over. -/
def refuseUpgrade (request : Request) : Response :=
  let value (name : String) := ((request.header? name).getD "").toLower
  if request.method = "HEAD" then .plain 405 "Request method must be `GET`"
  else if ((value "connection").splitOn "upgrade").length < 2 then
    .plain 400 "Connection header did not include 'upgrade'"
  else if value "upgrade" ≠ "websocket" then
    .plain 400 "`Upgrade` header did not include 'websocket'"
  else if (request.header? "sec-websocket-key").isNone then
    .plain 400 "`Sec-WebSocket-Key` header missing"
  else if request.header? "sec-websocket-version" ≠ some "13" then
    .plain 400 "`Sec-WebSocket-Version` header did not include '13'"
  else .plain 426 "WebSocket request couldn't be upgraded since no upgrade state was present"

/-- The response to a request that leads to nothing else. -/
def fallback (server : Server σ) (request : Request) : Response :=
  match server.files? with
  | some files => files.respond request
  | none => .notFound

/-- The response to a request of a method that is served. -/
def serve (server : Server σ) (now : Nat) (request : Request) : Response × Server σ :=
  match Route.ofPath request.path with
  | .experiments => server.listExperiments
  | .experiment segment =>
    match Text.percentDecode? segment with
    | some id => server.showExperiment id
    | none => (.plain 400 "Invalid URL: Invalid UTF-8 in `id`", server)
  | .push => (refuseUpgrade request, server)
  | .health => (.json 200 (server.health now), server)
  | .other => (server.fallback request, server)

/-- The response to a request whose method is not the one that asks what is allowed. -/
def route (server : Server σ) (now : Nat) (request : Request) : Response × Server σ :=
  match request.method with
  | "GET" => server.serve now request
  | "HEAD" =>
    let (response, server) := server.serve now request
    (response.withoutBody, server)
  | _ =>
    match Route.ofPath request.path with
    | .other => (server.fallback request, server)
    | _ => (.methodNotAllowed, server)

/-- The response to a request. -/
def handle (server : Server σ) (now : Nat) (request : Request) : Response × Server σ :=
  if request.method = "OPTIONS" then (Response.preflight.shared, server)
  else
    let (response, server) := server.route now request
    (response.shared, server)

/-- Serves until it is told to stop. The store is prepared first, then the address taken. -/
def run (store : σ) (bind : Except String Unit) : Except ProgramError Unit × σ :=
  match DocumentStore.prepare store with
  | (.error failure, store) => (.error (.ofFailure failure), store)
  | (.ok (), store) => (bind.mapError .io, store)

end Server

end TrialBoard.Gateway
