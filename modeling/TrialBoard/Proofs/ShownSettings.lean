import TrialBoard.Cli.Run
import TrialBoard.Proofs.DocumentText
import TrialBoard.Proofs.SettingLayers
import TrialBoard.Proofs.SettingsText

/-!
# Showing the settings

The settings are shown as a document that is read as the tree of all of them, and that tree gives
the settings again. A setting that is absent is not written, and absent is its default.

A variable of the environment may set a number of 64 bits, while an integer of TOML has 63 bits and
a sign. Settings with a larger number can be loaded, and run with, but not shown.
-/

namespace TrialBoard

open Toml (Draft Plain)

/-! ## The tree of the settings -/

/-- The tree of the names of the tables. -/
def CollectionNames.tree (names : CollectionNames) : Setting :=
  .table (Collection.all.map fun c => (c.name, .text (names.get c)))

/-- The tree of the settings of the store. -/
def StoreSettings.tree (s : StoreSettings) : Setting :=
  .table [("path", .text s.path), ("poll_interval_ms", .integer s.pollInterval),
    ("collections", CollectionNames.tree s.names)]

/-- The tree of the settings of the server. -/
def ServerSettings.tree (s : ServerSettings) : Setting :=
  .table ([("host", .text s.host), ("port", .integer s.port)]
    ++ (s.staticDir?.map fun dir => ("static_dir", Setting.text dir)).toList
    ++ [("max_connections", .integer s.maxConnections), ("feed_buffer", .integer s.feedBuffer)])

/-- The tree of all settings. -/
def Config.tree (config : Config) : Setting :=
  .table [("store", config.store.tree), ("server", config.server.tree)]

namespace Settable

variable {α β : Type} {fields : List (Json.Field (Settable α))} {decoder : Json.Decoder β}
  {set : β → α → α} {expected : String} {start : α}

/-- A member of a name that is new sets its part of the value. -/
theorem viewMembers_cons {name : String} {v : Json} {b : β}
    (hfind : fields.find? (·.name == name) = some (field name decoder set))
    (hview : decoder.view v = .ok b) {s : Settable α} (hnew : s.seen.contains name = false)
    (rest : List (String × Json)) :
    (shape expected start fields).viewMembers ((name, v) :: rest) s =
      (shape expected start fields).viewMembers rest
        { value := set b s.value, seen := name :: s.seen } := by
  have hfind' : (shape expected start fields).fields.find? (·.name == name) =
      some (field name decoder set) := hfind
  have hset : (field name decoder set).isSet s = false := hnew
  have hupdate : (field name decoder set).decoder.view v =
      .ok fun s => { value := set b s.value, seen := name :: s.seen } := by
    change (decoder.view v).map _ = _
    rw [hview]
    rfl
  rw [Json.Shape.viewMembers, hfind']
  dsimp only
  rw [hset, hupdate]
  rfl

end Settable

/-- A number within its range is read as itself. -/
theorem view_natural (expected : String) {max n : Nat} (hn : n ≤ max) (h : FitsWord n) :
    (Json.Decoder.natural expected max).view (Setting.integer n).toJson = .ok n := by
  rw [Setting.toJson, dif_pos h]
  change (if 0 ≤ (n : Int) ∧ (n : Int).toNat ≤ max then _ else _) = _
  rw [if_pos ⟨Int.natCast_nonneg n, by simpa using hn⟩, Int.toNat_natCast]

theorem CollectionNames.view_tree (names : CollectionNames) :
    CollectionNames.decoder.view (CollectionNames.tree names).toJson = .ok names := rfl

theorem StoreSettings.view_tree {s : StoreSettings} (h : s.IsSized) :
    StoreSettings.decoder.view s.tree.toJson = .ok s := by
  have hinterval := view_natural "u64" h (fitsWord_of_le h)
  rw [tree, Setting.toJson]
  change (Json.Shape.viewMembers _ (("path", Json.string s.path) :: ("poll_interval_ms", _) ::
    ("collections", _) :: []) _ >>= _) = _
  rw [Settable.viewMembers_cons rfl rfl rfl, Settable.viewMembers_cons rfl hinterval rfl,
    Settable.viewMembers_cons rfl (CollectionNames.view_tree s.names) rfl]
  rfl

theorem ServerSettings.view_tree {s : ServerSettings} (h : s.IsSized) :
    ServerSettings.decoder.view s.tree.toJson = .ok s := by
  have hport := view_natural "u16" h.port (fitsWord_of_le (h.port.trans (by decide)))
  have hmax := view_natural "usize" h.maxConnections (fitsWord_of_le h.maxConnections)
  have hbuffer := view_natural "usize" h.feedBuffer (fitsWord_of_le h.feedBuffer)
  obtain ⟨host, port, staticDir?, maxConnections, feedBuffer⟩ := s
  rw [tree, Setting.toJson]
  cases staticDir? with
  | none =>
    change (Json.Shape.viewMembers _ (("host", Json.string host) :: ("port", _) ::
      ("max_connections", _) :: ("feed_buffer", _) :: []) _ >>= _) = _
    rw [Settable.viewMembers_cons rfl rfl rfl, Settable.viewMembers_cons rfl hport rfl,
      Settable.viewMembers_cons rfl hmax rfl, Settable.viewMembers_cons rfl hbuffer rfl]
    rfl
  | some dir =>
    change (Json.Shape.viewMembers _ (("host", Json.string host) :: ("port", _) ::
      ("static_dir", Json.string dir) :: ("max_connections", _) :: ("feed_buffer", _) :: []) _
        >>= _) = _
    rw [Settable.viewMembers_cons rfl rfl rfl, Settable.viewMembers_cons rfl hport rfl,
      Settable.viewMembers_cons rfl rfl rfl, Settable.viewMembers_cons rfl hmax rfl,
      Settable.viewMembers_cons rfl hbuffer rfl]
    rfl

namespace Config

variable {config : Config}

theorem view_tree (h : config.IsSized) : decoder.view config.tree.toJson = .ok config := by
  rw [tree, Setting.toJson]
  change (Json.Shape.viewMembers _ (("store", _) :: ("server", _) :: []) _ >>= _) = _
  rw [Settable.viewMembers_cons rfl (StoreSettings.view_tree h.store) rfl,
    Settable.viewMembers_cons rfl (ServerSettings.view_tree h.server) rfl]
  rfl

/-! ## The document of the settings -/

/-- What the sections of the settings put into a document is the tree of the settings. -/
theorem lay_sections (config : Config) : ∃ draft : Draft,
    config.sections.foldlM Draft.lay? {} = some draft ∧
      .table (Toml.Node.entriesToSettings draft.entries) = config.tree := by
  obtain ⟨store, host, port, staticDir?, maxConnections, feedBuffer⟩ := config
  cases staticDir? with
  | none => exact ⟨_, rfl, rfl⟩
  | some dir => exact ⟨_, rfl, rfl⟩

/-- No number is too large to be read but those that are checked before the settings are written. -/
theorem isReadable_sections (h : config.IsSized)
    (hwide : ∀ n ∈ config.wideNumbers, n < 0x8000000000000000) :
    ∀ s ∈ config.sections, s.IsReadable := by
  have hpoll : config.store.pollInterval < 0x8000000000000000 := hwide _ (by simp [wideNumbers])
  have hmax : config.server.maxConnections < 0x8000000000000000 := hwide _ (by simp [wideNumbers])
  have hbuffer : config.server.feedBuffer < 0x8000000000000000 := hwide _ (by simp [wideNumbers])
  have hport : config.server.port < 0x8000000000000000 := h.server.port.trans_lt (by decide)
  intro s hs
  simp only [sections, List.mem_cons, List.not_mem_nil, or_false] at hs
  rcases hs with rfl | rfl | rfl
  · exact {
      path_ne := List.cons_ne_nil _ _
      length_path := by simp [Toml.maxDepth]
      path := by simp [Toml.IsBareName, Toml.isBare]
      names := by simp [Toml.IsBareName, Toml.isBare]
      values := by simp [Plain.IsReadable, hpoll] }
  · exact {
      path_ne := List.cons_ne_nil _ _
      length_path := by simp [Toml.maxDepth]
      path := by simp [Toml.IsBareName, Toml.isBare]
      names := by simp [Collection.all, Collection.name, Toml.IsBareName, Toml.isBare]
      values := by simp [Plain.IsReadable] }
  · exact {
      path_ne := List.cons_ne_nil _ _
      length_path := by simp [Toml.maxDepth]
      path := by simp [Toml.IsBareName, Toml.isBare]
      names := by
        cases config.server.staticDir? <;> simp [Toml.IsBareName, Toml.isBare]
      values := by
        cases config.server.staticDir? <;> simp [Plain.IsReadable, hport, hmax, hbuffer] }

variable {sources : ConfigSources}

/-- Numbers that were read are within their ranges, whatever source they are from. -/
theorem isSized_of_load (h : load sources = .ok config) : config.IsSized := by
  obtain ⟨-, hview, -⟩ := exists_setting_of_load h
  obtain ⟨room, hroom⟩ := Json.exists_fitsIn (Setting.overlay sources.trees).toJson
  exact (gives room).view _ _ (hroom.mono (Nat.le_add_right room 3)) hview

/-- One document and no variables set what the document says. -/
theorem overlay_tree (config : Config) :
    Setting.overlay [config.tree, Environment.setting []] = config.tree := by
  obtain ⟨store, host, port, staticDir?, maxConnections, feedBuffer⟩ := config
  cases staticDir? <;> rfl

theorem load_document {path text : String} (hparse : Toml.parse text = .ok config.tree)
    (hsized : config.IsSized) (hvalid : config.fault? = none) :
    load { explicit? := some (path, some text) } = .ok config := by
  have hsetting : ConfigSources.setting { explicit? := some (path, some text) } =
      .ok config.tree := by
    change (([text].mapM Toml.parse) >>= fun documents =>
      Except.ok (Setting.overlay (documents ++ [Environment.setting []]))) = _
    rw [List.mapM_cons, hparse]
    exact congrArg Except.ok config.overlay_tree
  exact load_of_setting rfl hsetting (view_tree hsized) hvalid

/-- One variable gives the settings of the tree that it sets. -/
theorem load_variable {name value : String} {path : List String} {leaf : Setting}
    (hname : Environment.path? name = some path) (hvalue : Setting.ofText value = leaf)
    (hview : decoder.view (Setting.overlay [.overlay [.under path leaf]]).toJson = .ok config)
    (hvalid : config.fault? = none) : load { environment := [(name, value)] } = .ok config := by
  refine load_of_setting rfl ?_ hview hvalid
  change Except.ok (Setting.overlay [Environment.setting [(name, value)]]) = _
  rw [Environment.setting_single hname, hvalue]

/-- Settings that were loaded are shown as a document that gives them again if TOML can hold each of
their numbers, and only then. -/
theorem shown_settings_load_again (h : load sources = .ok config) :
    (∃ text, Cli.showConfig config = .done text ∧
      ∀ path, load { explicit? := some (path, some text) } = .ok config) ↔
      ∀ n ∈ config.wideNumbers, n < 0x8000000000000000 := by
  have hall : config.wideNumbers.all (· < 0x8000000000000000) = true ↔
      ∀ n ∈ config.wideNumbers, n < 0x8000000000000000 := by
    simp only [List.all_eq_true, decide_eq_true_eq]
  constructor
  · rintro ⟨text, htext, -⟩
    unfold Cli.showConfig toToml at htext
    split at htext
    · rename_i htoml
      split at htoml
      · rename_i hfits
        exact hall.1 hfits
      · cases htoml
    · cases htext
  · intro hfits
    have hsized := isSized_of_load h
    obtain ⟨-, -, hvalid⟩ := exists_setting_of_load h
    obtain ⟨draft, hdraft, htree⟩ := lay_sections config
    refine ⟨Toml.render config.sections ++ "\n", ?_, fun path => load_document ?_ hsized hvalid⟩
    · rw [Cli.showConfig, toToml, if_pos (hall.2 hfits)]
    · have hne : config.sections ≠ [] := List.cons_ne_nil _ _
      rw [← htree, Toml.parse_render hne (isReadable_sections hsized hfits) hdraft]

/-- A host with quotes of its own. -/
theorem quoted_host_loads_again :
    load { environment := [("LABFEED_SERVER__HOST", "'a' \"b\"")] } =
      .ok { server := { host := "'a' \"b\"" } } ∧
      ∃ text, Cli.showConfig { server := { host := "'a' \"b\"" } } = .done text ∧
        ∀ path, load { explicit? := some (path, some text) } =
          .ok { server := { host := "'a' \"b\"" } } := by
  have hname : Environment.path? "LABFEED_SERVER__HOST" = some ["server", "host"] := rfl
  have hvalue : Setting.ofText "'a' \"b\"" = .text "'a' \"b\"" := rfl
  have hload : load { environment := [("LABFEED_SERVER__HOST", "'a' \"b\"")] } =
      .ok { server := { host := "'a' \"b\"" } } := load_variable hname hvalue rfl (by decide)
  exact ⟨hload, (shown_settings_load_again hload).2 (by decide)⟩

/-- A variable may set a number of 64 bits, with which the settings cannot be shown. -/
theorem wide_number_is_not_shown :
    load { environment := [("LABFEED_SERVER__FEED_BUFFER", "9223372036854775808")] } =
      .ok { server := { feedBuffer := 0x8000000000000000 } } ∧
      Cli.showConfig { server := { feedBuffer := 0x8000000000000000 } } =
        .failed ["out-of-range value for u64 type"] := by
  have hname : Environment.path? "LABFEED_SERVER__FEED_BUFFER" = some ["server", "feed_buffer"] :=
    rfl
  have hvalue : Setting.ofText "9223372036854775808" = .integer 0x8000000000000000 := rfl
  exact ⟨load_variable hname hvalue rfl (by decide), rfl⟩

end Config

end TrialBoard
