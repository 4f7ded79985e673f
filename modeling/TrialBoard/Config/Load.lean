import TrialBoard.Config.Environment
import TrialBoard.Config.Form
import TrialBoard.Toml.Reader

/-!
# Loading the settings

Settings come from up to three documents and from the environment. Each source is laid over the ones
before it: the user's document, that of the workspace, the one asked for, and the environment on
top. What none of them sets keeps its default. A document that is asked for has to exist; this is
asked before any document is read.
-/

namespace TrialBoard

/-- Where settings come from, the weakest source first. -/
structure ConfigSources where
  /-- The text of the user's document. -/
  user? : Option String := none
  /-- The text of the workspace's document. -/
  workspace? : Option String := none
  /-- The path of the document asked for, and its text if it exists. -/
  explicit? : Option (String × Option String) := none
  environment : Environment := []

namespace ConfigSources

/-- The document asked for, if it has to exist and does not. -/
def missing? (sources : ConfigSources) : Option String :=
  match sources.explicit? with
  | some (path, none) => some path
  | _ => none

/-- The texts of the documents, the weakest first. -/
def texts (sources : ConfigSources) : List String :=
  sources.user?.toList ++ sources.workspace?.toList ++ (sources.explicit?.bind (·.2)).toList

/-- All that the sources set. -/
def setting (sources : ConfigSources) : Except String Setting := do
  let documents ← sources.texts.mapM Toml.parse
  return .overlay (documents ++ [sources.environment.setting])

end ConfigSources

namespace Config

/-- The settings that a tree of them gives. -/
def ofSetting (setting : Setting) : Except ConfigError Config :=
  match decoder.view setting.toJson with
  | .ok config => .ok config
  | .error cause => .error (.unreadable cause.describe)

/-- The settings of some sources. -/
def load (sources : ConfigSources) : Except ConfigError Config :=
  match sources.missing? with
  | some path => .error (.invalid (ConfigFault.missingFile path).describe)
  | none =>
    match sources.setting with
    | .error reason => .error (.unreadable reason)
    | .ok setting => (ofSetting setting).bind validate

end Config

end TrialBoard
