import TrialBoard.Json.Decoder

/-!
# The envelope of answers

Every answer of the programming interface is an object with a code, a description and, on success,
the data. A failure is told by the code, never by the status of the response.
-/

namespace TrialBoard.Gateway

/-- An answer with data of type `α`. -/
structure Envelope (α : Type) where
  code : Nat
  description? : Option String
  data? : Option α

namespace Envelope

variable {α : Type}

/-- The code of a success. -/
def successCode : Nat := 0

/-- The code of a failure. -/
def failureCode : Nat := 1

/-- The answer of a success. -/
def success (data? : Option α) : Envelope α := ⟨successCode, some "Success", data?⟩

/-- The answer of a failure. -/
def failure (message : String) : Envelope α := ⟨failureCode, some message, none⟩

/-- The answer that tells a result. -/
def ofResult {ε : Type} (message : ε → String) : Except ε α → Envelope α
  | .ok data => success (some data)
  | .error e => failure (message e)

/-- The written form of an answer; what is absent is left out. -/
def toJson (encode : α → Json) (e : Envelope α) : Json :=
  .object (("responseCode", .ofNat e.code)
    :: (e.description?.map fun s => ("responseDesc", Json.string s)).toList
    ++ (e.data?.map fun data => ("data", encode data)).toList)

/-- The members read so far. -/
structure Collected where
  code? : Option Nat := none
  description? : Option (Option String) := none
  data? : Option (Option Json) := none

/-- The answer, if it has a code. -/
def finish (e : Collected) : Except Json.Cause (Envelope Json) :=
  match e.code? with
  | none => .error (.missingField "responseCode")
  | some code => .ok ⟨code, e.description?.getD none, e.data?.getD none⟩

/-- The record of an answer with any data. -/
def shape : Json.Shape Collected (Envelope Json) where
  expected := "struct ApiEnvelope"
  fields :=
    [ { name := "responseCode", isSet := (·.code?.isSome)
        decoder := (Json.Decoder.natural "u8" 255).map fun n e => { e with code? := some n } },
      { name := "responseDesc", isSet := (·.description?.isSome)
        decoder := (Json.Decoder.optional (.text "a string")).map
          fun s e => { e with description? := some s } },
      { name := "data", isSet := (·.data?.isSome)
        decoder := (Json.Decoder.optional .json).map fun v e => { e with data? := some v } } ]
  start := {}
  finish := finish

/-- Reads an answer with any data. -/
def decoder : Json.Decoder (Envelope Json) := shape.decoder

end Envelope

end TrialBoard.Gateway
