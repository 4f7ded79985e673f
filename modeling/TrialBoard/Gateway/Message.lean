import TrialBoard.Change
import TrialBoard.Time.Reader

/-!
# Messages of the push channel

A message is an object with its event's name under `event` and that event's content under `data`.
The server sends change feeds, pongs and errors; a client sends pings.
-/

namespace TrialBoard.Gateway

/-- A code of an error message. -/
inductive ErrorCode where
  /-- The connection limit is reached. -/
  | capacityFull
  /-- A client's text is no message. -/
  | parseError
deriving DecidableEq

/-- The word for a code. -/
def ErrorCode.text : ErrorCode → String
  | capacityFull => "CAPACITY_FULL"
  | parseError => "PARSE_ERROR"

/-- A message from the server. -/
inductive ServerMessage where
  | changeFeed (feed : ChangeFeed)
  | pong (timestamp : Instant)
  | error (code message : String)

/-- A message from a client. -/
inductive ClientMessage where
  | ping (timestamp : Instant)

/-- The written form of a message. -/
def tagged (event : String) (content : Json) : Json :=
  .object [("event", .string event), ("data", content)]

/-- The written form of a moment. -/
def stamped (timestamp : Instant) : Json := .object [("timestamp", .string timestamp.text)]

/-- The written form of a server's message. -/
def ServerMessage.toJson : ServerMessage → Json
  | changeFeed feed => tagged "changeFeed" feed.toJson
  | pong timestamp => tagged "pong" (stamped timestamp)
  | error code message =>
    tagged "error" (.object [("code", .string code), ("message", .string message)])

/-- The written form of a client's message. -/
def ClientMessage.toJson : ClientMessage → Json
  | ping timestamp => tagged "ping" (stamped timestamp)

/-- Reads a moment. -/
def instant : Json.Decoder Instant :=
  .checkedText "an RFC 3339 formatted date and time string" fun s =>
    match Instant.parse s with
    | .ok t => .ok t
    | .error e => .error (.refusedText e.message)

/-- The record that holds a moment alone. -/
def stampShape (expected : String) : Json.Shape (Option Instant) Instant where
  expected
  fields :=
    [ { name := "timestamp", isSet := Option.isSome
        decoder := instant.map fun t _ => some t } ]
  start := none
  finish
    | some t => .ok t
    | none => .error (.missingField "timestamp")
  arrays := .refusedInside

/-- The members of an error read so far. -/
structure ErrorCollected where
  code? : Option String := none
  message? : Option String := none

/-- The error, if both members are there. -/
def ErrorCollected.finish (e : ErrorCollected) : Except Json.Cause ServerMessage :=
  match e.code?, e.message? with
  | none, _ => .error (.missingField "code")
  | _, none => .error (.missingField "message")
  | some code, some message => .ok (.error code message)

/-- The record of an error. -/
def errorShape : Json.Shape ErrorCollected ServerMessage where
  expected := "struct variant ServerMessage::Error"
  fields :=
    [ { name := "code", isSet := (·.code?.isSome)
        decoder := (Json.Decoder.text "a string").map fun s e => { e with code? := some s } },
      { name := "message", isSet := (·.message?.isSome)
        decoder := (Json.Decoder.text "a string").map fun s e => { e with message? := some s } } ]
  start := {}
  finish := ErrorCollected.finish
  arrays := .refusedInside

/-- The form of a server's messages. -/
def ServerMessage.form : Json.Tagged ServerMessage where
  expected := "adjacently tagged enum ServerMessage"
  tag := "event"
  content := "data"
  variants :=
    [ ("changeFeed", ChangeFeed.decoder.map .changeFeed),
      ("pong", (stampShape "struct variant ServerMessage::Pong").decoder.map .pong),
      ("error", errorShape.decoder) ]

/-- The form of a client's messages. -/
def ClientMessage.form : Json.Tagged ClientMessage where
  expected := "adjacently tagged enum ClientMessage"
  tag := "event"
  content := "data"
  variants := [("ping", (stampShape "struct variant ClientMessage::Ping").decoder.map .ping)]

/-- Reads a server's message. -/
def ServerMessage.parse (text : String) : Except Json.Error ServerMessage :=
  Json.readAll ServerMessage.form.read Json.maxDepth text

/-- Reads a client's message. -/
def ClientMessage.parse (text : String) : Except Json.Error ClientMessage :=
  Json.readAll ClientMessage.form.read Json.maxDepth text

/-- The error message of a code. -/
def ServerMessage.ofCode (code : ErrorCode) (message : String) : ServerMessage :=
  .error code.text message

/-- The answer to a client's text: a ping comes back as a pong, anything else is an error. -/
def reply (text : String) : ServerMessage :=
  match ClientMessage.parse text with
  | .ok (.ping timestamp) => .pong timestamp
  | .error e => .ofCode .parseError ("Invalid message: " ++ e.message)

end TrialBoard.Gateway
