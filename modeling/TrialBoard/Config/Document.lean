import TrialBoard.Config.Basic
import TrialBoard.Toml.Writer

/-!
# Settings as a TOML document

The document has a table for the store, one for the names of its tables, and one for the server. An
integer of TOML has 63 bits and a sign, so a larger number cannot be written.
-/

namespace TrialBoard.Config

/-- The settings that are natural numbers of 64 bits. -/
def wideNumbers (config : Config) : List Nat :=
  [config.store.pollInterval, config.server.maxConnections, config.server.feedBuffer]

/-- The tables of the settings. -/
def sections (config : Config) : List Toml.Section :=
  [ { path := ["store"]
      entries := [("path", .text config.store.path),
        ("poll_interval_ms", .number config.store.pollInterval)] },
    { path := ["store", "collections"]
      entries := Collection.all.map fun c => (c.name, .text (config.store.names.get c)) },
    { path := ["server"]
      entries := [("host", .text config.server.host), ("port", .number config.server.port)]
        ++ (config.server.staticDir?.map fun dir => ("static_dir", Toml.Plain.text dir)).toList
        ++ [("max_connections", .number config.server.maxConnections),
          ("feed_buffer", .number config.server.feedBuffer)] } ]

/-- The settings as a document, or why they cannot be written. -/
def toToml (config : Config) : Except String String :=
  if config.wideNumbers.all (· < 0x8000000000000000) then .ok (Toml.render config.sections)
  else .error "out-of-range value for u64 type"

end TrialBoard.Config
