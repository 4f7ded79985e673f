import TrialBoard.Collection
import TrialBoard.Document
import TrialBoard.Json.Decoder

/-!
# Changes

A change event is what a store says of one write: the row before and the row after. An event with
neither is a heartbeat. A change feed is what is passed on of an event: the collection and the row
after.
-/

namespace TrialBoard

/-- The row before and the row after a write. -/
structure ChangeEvent where
  old? : Option Json
  new? : Option Json

namespace ChangeEvent

/-- The event of a new row. -/
def inserted (row : Document) : ChangeEvent := ⟨none, some (.object row)⟩

/-- The event of a replaced row. -/
def updated (old new : Document) : ChangeEvent := ⟨some (.object old), some (.object new)⟩

/-- The event of a written row, replaced or new. -/
def written (old? : Option Document) (new : Document) : ChangeEvent :=
  ⟨old?.map .object, some (.object new)⟩

/-- Whether the event tells of nothing. -/
def isHeartbeat (event : ChangeEvent) : Bool := event.old?.isNone && event.new?.isNone

/-- The written form of an event. -/
def toJson (event : ChangeEvent) : Json :=
  .object [("old_val", event.old?.getD .null), ("new_val", event.new?.getD .null)]

/-- The members read so far. -/
structure Collected where
  old? : Option (Option Json) := none
  new? : Option (Option Json) := none

/-- The record of an event, both of whose members may be left out. -/
def shape : Json.Shape Collected ChangeEvent where
  expected := "struct ChangeEvent"
  fields :=
    [ { name := "old_val", isSet := (·.old?.isSome), requiredInArray := false
        decoder := (Json.Decoder.optional .json).map fun value e => { e with old? := some value } },
      { name := "new_val", isSet := (·.new?.isSome), requiredInArray := false
        decoder := (Json.Decoder.optional .json).map fun value e => { e with new? := some value } } ]
  start := {}
  finish e := .ok ⟨e.old?.getD none, e.new?.getD none⟩

/-- Reads an event. -/
def decoder : Json.Decoder ChangeEvent := shape.decoder

end ChangeEvent

/-- A change that is passed on: where it happened, and the new row. -/
structure ChangeFeed where
  table : Collection
  value : Json

namespace ChangeFeed

/-- The feed of an event; null stands for no new row. -/
def ofEvent (table : Collection) (event : ChangeEvent) : ChangeFeed :=
  ⟨table, event.new?.getD .null⟩

/-- The written form of a feed. -/
def toJson (feed : ChangeFeed) : Json :=
  .object [("table", .string feed.table.name), ("value", feed.value)]

/-- The members read so far. -/
structure Collected where
  table? : Option Collection := none
  value? : Option Json := none

/-- The value of a member that has to be there. -/
def finish (e : Collected) : Except Json.Cause ChangeFeed :=
  match e.table?, e.value? with
  | none, _ => .error (.missingField "table")
  | _, none => .error (.missingField "value")
  | some table, some value => .ok ⟨table, value⟩

/-- The record of a feed. -/
def shape : Json.Shape Collected ChangeFeed where
  expected := "struct ChangeFeed"
  fields :=
    [ { name := "table", isSet := (·.table?.isSome)
        decoder := (Json.Decoder.enumeration Collection.variants).map
          fun table e => { e with table? := some table } },
      { name := "value", isSet := (·.value?.isSome)
        decoder := Json.Decoder.json.map fun value e => { e with value? := some value } } ]
  start := {}
  finish := finish

/-- Reads a feed. -/
def decoder : Json.Decoder ChangeFeed := shape.decoder

end ChangeFeed

end TrialBoard
