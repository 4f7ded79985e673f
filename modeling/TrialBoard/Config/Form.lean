import TrialBoard.Config.Basic
import TrialBoard.Json.Decoder

/-!
# Settings as JSON

Every member may be left out, in which case the setting keeps its default. Unknown members are
passed over.
-/

namespace TrialBoard

/-- A member of a record that sets a part of it, wherever it stands and only once. -/
structure Settable (α : Type) where
  value : α
  /-- The members set so far. -/
  seen : List String := []

namespace Settable

/-- The field that sets a part of a value; an array need not reach it. -/
def field {α β : Type} (name : String) (decoder : Json.Decoder β) (set : β → α → α) :
    Json.Field (Settable α) where
  name
  isSet s := s.seen.contains name
  decoder := decoder.map fun b s => { value := set b s.value, seen := name :: s.seen }
  requiredInArray := false

/-- The record of a value whose parts all have defaults. -/
def shape {α : Type} (expected : String) (start : α) (fields : List (Json.Field (Settable α))) :
    Json.Shape (Settable α) α where
  expected
  fields
  start := { value := start }
  finish s := .ok s.value
  moreItems := true

end Settable

namespace CollectionNames

/-- Reads the names of the tables. -/
def decoder : Json.Decoder CollectionNames :=
  (Settable.shape "struct CollectionNames" ({} : StoreSettings).names
    (Collection.all.map fun c =>
      Settable.field c.name (.text "a string") fun name names => names.set c name)).decoder

/-- The written form of the names. -/
def toJson (names : CollectionNames) : Json :=
  .object (Collection.all.map fun c => (c.name, .string (names.get c)))

end CollectionNames

namespace StoreSettings

/-- Reads the settings of the store. -/
def decoder : Json.Decoder StoreSettings :=
  (Settable.shape "struct StoreConfig" {}
    [ Settable.field "path" (.text "path string") fun path s => { s with path },
      Settable.field "poll_interval_ms" (.natural "u64" 0xFFFFFFFFFFFFFFFF)
        fun pollInterval s => { s with pollInterval },
      Settable.field "collections" CollectionNames.decoder
        fun names s => { s with names } ]).decoder

/-- The written form of the settings of the store. -/
def toJson (s : StoreSettings) : Json :=
  .object
    [ ("path", .string s.path), ("poll_interval_ms", .ofNat s.pollInterval),
      ("collections", CollectionNames.toJson s.names) ]

end StoreSettings

namespace ServerSettings

/-- Reads the settings of the server. -/
def decoder : Json.Decoder ServerSettings :=
  (Settable.shape "struct ServerConfig" {}
    [ Settable.field "host" (.text "a string") fun host s => { s with host },
      Settable.field "port" (.natural "u16" 0xFFFF) fun port s => { s with port },
      Settable.field "static_dir" (.optional (.text "path string"))
        fun staticDir? s => { s with staticDir? },
      Settable.field "max_connections" (.natural "usize" 0xFFFFFFFFFFFFFFFF)
        fun maxConnections s => { s with maxConnections },
      Settable.field "feed_buffer" (.natural "usize" 0xFFFFFFFFFFFFFFFF)
        fun feedBuffer s => { s with feedBuffer } ]).decoder

/-- The written form of the settings of the server. -/
def toJson (s : ServerSettings) : Json :=
  .object
    [ ("host", .string s.host), ("port", .ofNat s.port),
      ("static_dir", (s.staticDir?.map .string).getD .null),
      ("max_connections", .ofNat s.maxConnections), ("feed_buffer", .ofNat s.feedBuffer) ]

end ServerSettings

namespace Config

/-- Reads all settings. -/
def decoder : Json.Decoder Config :=
  (Settable.shape "struct LabfeedConfig" {}
    [ Settable.field "store" StoreSettings.decoder fun store c => { c with store },
      Settable.field "server" ServerSettings.decoder fun server c => { c with server } ]).decoder

/-- The written form of all settings. -/
def toJson (c : Config) : Json :=
  .object [("store", c.store.toJson), ("server", c.server.toJson)]

end Config

end TrialBoard
