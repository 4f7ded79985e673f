import TrialBoard.Gateway.Message
import TrialBoard.Gateway.Server
import TrialBoard.Relay

/-!
# The push channel

A connection is registered, gets a relay of its own, and then receives every change and an answer to
each of its texts, until it goes away. Then its relay is closed and its place is free again. A
connection over the limit gets an error and is closed at once; it never reaches the store.

A connection whose relay could not be set up at all, because the store broke down or there is no
channel for as many changes as may wait, is gone at once, and its place stays taken.

A connection that is served listens to its client and to its relay at once, in a loop. `turn` is one
turn of it: it takes what came first, sends what there is to send, and ends the connection when the
client has gone or cannot be reached. A relay that has nothing more to tell is listened to no more,
and the connection goes on without it.
-/

namespace TrialBoard.Gateway

/-- What a connection is sent. -/
inductive Frame where
  | text (message : ServerMessage)
  | close

/-- What a client sends. -/
inductive ClientFrame where
  | text (content : String)
  /-- A frame that is none of the others. -/
  | other
  | close

/-- What a client's frame has to be answered. -/
def ClientFrame.text? : ClientFrame → Option String
  | text content => some content
  | other | close => none

/-- What can happen to a connection. -/
inductive SocketEvent where
  /-- A frame comes from the client. What is answered reaches it or does not. -/
  | frame (now : Nat) (frame : ClientFrame) (isDelivered : Bool)
  /-- The connection fails, or the client is gone. -/
  | gone
  /-- The oldest change that waits is sent. It reaches the client or does not. -/
  | feed (isDelivered : Bool)
  /-- The relay passes on a change of a collection. -/
  | forward (c : Collection)

/-- A connection, from its acceptance on. -/
inductive Socket (τ : Type) where
  | serving (id : Nat) (relay : Relay τ)
  | ended

namespace Socket

/-- Whether the connection is being served. -/
def isServing {τ : Type} : Socket τ → Bool
  | serving .. => true
  | ended => false

end Socket

namespace Server

variable {σ τ : Type} [DocumentStore σ τ]

/-- The error that a connection over the limit gets. -/
def capacityError : ServerMessage := .ofCode .capacityFull "Server at maximum connections"

/-- Whether a session with the store breaks down as it is opened. -/
def storeCrashes (server : Server σ) : Bool :=
  match DocumentStore.openSession server.store with
  | .error (.crash _) => true
  | _ => false

/-- Takes a connection. -/
def connect (server : Server σ) (now : Nat) : Socket τ × List Frame × Server σ :=
  match server.registry.add now with
  | (none, registry) => (.ended, [.text capacityError, .close], { server with registry })
  | (some id, registry) =>
    if !Channel.isCapacity server.feedBuffer || server.storeCrashes then
      (.ended, [], { server with registry })
    else
      let (relay, store) := Relay.attach server.store server.feedBuffer
      (.serving id relay, [], { server with registry, store })

/-- Ends a connection: its relay is closed and its place is free. -/
def disconnect (server : Server σ) : Socket τ → Socket τ × Server σ
  | .ended => (.ended, server)
  | .serving id relay =>
    let (_, store) := relay.close server.store
    (.ended, { server with store, registry := (server.registry.remove id).2 })

/-- Sends a connection every change there is. -/
def push (server : Server σ) : Socket τ → Socket τ × List Frame × Server σ
  | .ended => (.ended, [], server)
  | .serving id relay =>
    let (feeds, relay, store) := relay.receiveAll server.store
    let (relay, store) := relay.settle store
    (.serving id relay, feeds.map fun feed => .text (.changeFeed feed), { server with store })

/-- Takes a frame from a connection that is being served. Each text has its answer, and counts as
activity. -/
def receive (server : Server σ) (now : Nat) (socket : Socket τ) (frame : ClientFrame) :
    Socket τ × List Frame × Server σ :=
  match socket, frame with
  | .serving id relay, .text content =>
    ( .serving id relay, [.text (reply content)],
      { server with registry := server.registry.touch id now } )
  | socket, .close =>
    let (socket, server) := server.disconnect socket
    (socket, [], server)
  | socket, _ => (socket, [], server)

end Server

/-! ## The loop of a connection -/

/-- What a turn of the loop of a connection comes to. -/
structure Turn (σ τ : Type) where
  server : Server σ
  socket : Socket τ
  /-- Whether the relay is still listened to. -/
  listens : Bool
  /-- The text that was read from the client. -/
  text? : Option String := none
  /-- The feed that was received from the relay. -/
  feed? : Option ChangeFeed := none
  /-- The frames that reached the client. -/
  sent : List Frame := []
  /-- Whether something could not be sent. -/
  hasFailed : Bool := false

namespace Turn

variable {σ τ : Type} [DocumentStore σ τ]

/-- Ends the connection. -/
def finish (t : Turn σ τ) : Turn σ τ :=
  let (socket, server) := t.server.disconnect t.socket
  { t with socket, server }

/-- Sends frames, which reach the client or do not. A connection that cannot be reached ends. -/
def send (t : Turn σ τ) (frames : List Frame) (isDelivered : Bool) : Turn σ τ :=
  if frames.isEmpty then t
  else if isDelivered then { t with sent := frames }
  else { t with hasFailed := true }.finish

end Turn

namespace Server

variable {σ τ : Type} [DocumentStore σ τ]

/-- One turn of the loop of a connection that is served under a number. -/
def turn (server : Server σ) (id : Nat) (relay : Relay τ) (listens : Bool) :
    SocketEvent → Turn σ τ
  | .frame now frame isDelivered =>
    let (socket, frames, server) := server.receive now (.serving id relay) frame
    Turn.send { server, socket, listens, text? := frame.text? } frames isDelivered
  | .gone => Turn.finish { server, socket := .serving id relay, listens }
  | .feed isDelivered =>
    if listens then
      match relay.receive with
      | some (feed, relay) =>
        Turn.send { server, socket := .serving id relay, listens, feed? := some feed }
          [.text (.changeFeed feed)] isDelivered
      | none => { server, socket := .serving id relay, listens := !relay.isExhausted }
    else { server, socket := .serving id relay, listens }
  | .forward c =>
    match relay.act server.store c with
    | some (relay, store) =>
      { server := { server with store }, socket := .serving id relay, listens }
    | none => { server, socket := .serving id relay, listens }

end Server

end TrialBoard.Gateway
