import TrialBoard.Config.Form
import TrialBoard.Proofs.DocumentText
import TrialBoard.Proofs.SettingSources

/-!
# The layers of the settings

Each setting is a leaf of the tree that the sources set. Settings that are loaded have at each leaf
what the topmost source sets there, and the default where none does; a source has no say at leaves
that it does not mention.

That is so as long as the sections of the settings are tables wherever they are set. A plain value
in the place of a section would hide what the sources below it set there.
-/

namespace TrialBoard

open Setting (IsTableAlong topmost?)

/-! ## Decoded fields -/

namespace Settable

variable {α β γ : Type} {name : String} {decoder : Json.Decoder β} {get : α → β}
  {fields : List (Json.Field (Settable α))}

/-- What a part of a value is that a setting sets, or none does. -/
def Reads (decoder : Json.Decoder β) (start : β) : Option Setting → β → Prop
  | none, b => b = start
  | some setting, b => decoder.view setting.toJson = .ok b

/-- Whether a field leaves a part of a value as it is. -/
def Leaves (get : α → β) (field : Json.Field (Settable α)) : Prop :=
  ∀ v update, field.decoder.view v = .ok update →
    ∀ s, get (update s).value = get s.value ∧ (update s).seen = field.name :: s.seen

theorem leaves_field {d : Json.Decoder γ} {set : γ → α → α} (other : String)
    (h : ∀ c a, get (set c a) = get a) : Leaves get (field other d set) := by
  intro v update hupdate s
  obtain ⟨c, -, rfl⟩ := exists_of_map_eq_ok hupdate
  exact ⟨h c s.value, rfl⟩

/-- A member sets the field of its name, which was not set before, or it is passed over. -/
theorem of_viewMembers_cons {expected key : String} {start : α} {v : Json}
    {ms : List (String × Json)} {s s' : Settable α}
    (h : (shape expected start fields).viewMembers ((key, v) :: ms) s = .ok s') :
    (∃ f update, fields.find? (·.name == key) = some f ∧ f.isSet s = false ∧
      f.decoder.view v = .ok update ∧
        (shape expected start fields).viewMembers ms (update s) = .ok s') ∨
      fields.find? (·.name == key) = none ∧
        (shape expected start fields).viewMembers ms s = .ok s' := by
  unfold Json.Shape.viewMembers at h
  split at h
  · rename_i f hfield
    split at h
    · cases h
    · rename_i hfresh
      split at h
      · rename_i update hview
        exact .inl ⟨f, update, hfield, Bool.eq_false_iff.2 hfresh, hview, h⟩
      · cases h
  · exact .inr ⟨‹_›, h⟩

/-- A part of a value that one field sets, and no other, is what the member of its name says. A
field that was set already is not among the members that are left. -/
theorem reads_viewMembers {expected : String} {start : α} {set : β → α → α}
    (hfind : fields.find? (·.name == name) = some (field name decoder set))
    (hset : ∀ b a, get (set b a) = b)
    (hothers : ∀ f ∈ fields, f.name = name ∨ Leaves get f)
    (entries : List (String × Setting)) {s s' : Settable α}
    (h : (shape expected start fields).viewMembers (Setting.entriesToJson entries) s = .ok s') :
    (s.seen.contains name = true → entries.lookup name = none) ∧
      Reads decoder (get s.value) (entries.lookup name) (get s'.value) := by
  induction entries generalizing s with
  | nil =>
    simp only [Setting.entriesToJson] at h
    obtain rfl := Except.ok.inj h
    exact ⟨fun _ => rfl, rfl⟩
  | cons e entries ih =>
    obtain ⟨key, value⟩ := e
    rw [Setting.entriesToJson] at h
    rw [List.lookup_cons]
    by_cases hkey : name = key
    · subst hkey
      rw [beq_self_eq_true]
      rcases of_viewMembers_cons h with ⟨f, update, hf, hfresh, hview, h⟩ | ⟨hnone, -⟩
      · obtain rfl := Option.some.inj (hf.symm.trans hfind)
        obtain ⟨b, hb, rfl⟩ := exists_of_map_eq_ok hview
        obtain ⟨hgone, hreads⟩ := ih h
        rw [hgone (by simp)] at hreads
        refine ⟨fun hseen => absurd (hfresh.symm.trans hseen) Bool.false_ne_true, ?_⟩
        change get s'.value = get (set b s.value) at hreads
        change decoder.view value.toJson = .ok (get s'.value)
        rw [hreads, hset, hb]
      · rw [hfind] at hnone
        cases hnone
    · rw [beq_eq_false_iff_ne.2 hkey]
      rcases of_viewMembers_cons h with ⟨f, update, hf, -, hview, h⟩ | ⟨-, h⟩
      · have hname : f.name = key := by simpa using List.find?_some hf
        have hleaves : Leaves get f := by
          refine (hothers f (List.mem_of_find?_eq_some hf)).resolve_left fun heq => hkey ?_
          exact heq.symm.trans hname
        obtain ⟨hget, hseen⟩ := hleaves _ update hview s
        obtain ⟨hgone, hreads⟩ := ih h
        rw [hget] at hreads
        refine ⟨fun hs => hgone ?_, hreads⟩
        rw [hseen, List.contains_cons, hs, Bool.or_true]
      · exact ih h

theorem reads_view (get : α → β) (set : β → α → α) {expected : String} {start a : α}
    {entries : List (String × Setting)}
    (h : (shape expected start fields).decoder.view (Setting.table entries).toJson = .ok a)
    (hfind : fields.find? (·.name == name) = some (field name decoder set))
    (hset : ∀ b a, get (set b a) = b)
    (hothers : fields.Forall fun f => f.name = name ∨ Leaves get f) :
    Reads decoder (get start) (entries.lookup name) (get a) := by
  rw [Setting.toJson] at h
  obtain ⟨s, hs, hfinish⟩ := exists_of_bind_eq_ok h
  obtain rfl := Except.ok.inj hfinish
  exact (reads_viewMembers hfind hset (List.forall_iff_forall_mem.1 hothers) entries hs).2

variable {setting? : Option Setting}

theorem reads_text {expected start s : String}
    (h : Reads (.text expected) start setting? s) :
    some (.text s) = setting?.or (some (.text start)) := by
  cases setting? with
  | none =>
    rw [Option.none_or]
    exact congrArg (some ∘ Setting.text) h
  | some setting =>
    change (Json.Decoder.text expected).view setting.toJson = .ok s at h
    cases setting with
    | text t =>
      rw [Setting.toJson] at h
      rw [Option.some_or]
      exact congrArg (some ∘ Setting.text) (Except.ok.inj h).symm
    | flag | integer | real | list | table =>
      rw [Setting.toJson] at h
      cases h

theorem reads_natural {expected : String} {start n max : Nat}
    (h : Reads (.natural expected max) start setting? n) :
    some (.integer n) = setting?.or (some (.integer start)) := by
  cases setting? with
  | none =>
    rw [Option.none_or]
    exact congrArg (fun n : Nat => some (Setting.integer n)) h
  | some setting =>
    change (Json.Decoder.natural expected max).view setting.toJson = .ok n at h
    cases setting with
    | integer i =>
      rw [Setting.toJson] at h
      split at h
      · change (if 0 ≤ i ∧ i.toNat ≤ max then Except.ok i.toNat else _) = _ at h
        split at h
        · rename_i hrange
          obtain rfl := Except.ok.inj h
          rw [Option.some_or, Int.toNat_of_nonneg hrange.1]
        · cases h
      · cases h
    | flag | text | real | list | table =>
      rw [Setting.toJson] at h
      cases h

/-- No setting is the null that stands for none. -/
theorem reads_optional {expected : String} {start s? : Option String}
    (h : Reads (.optional (.text expected)) start setting? s?) :
    s?.map .text = setting?.or (start.map .text) := by
  cases setting? with
  | none =>
    rw [Option.none_or]
    exact congrArg (Option.map Setting.text) h
  | some setting =>
    change (Json.Decoder.optional (.text expected)).view setting.toJson = .ok s? at h
    cases setting with
    | text t =>
      rw [Setting.toJson] at h
      rw [Option.some_or]
      exact congrArg (Option.map Setting.text) (Except.ok.inj h).symm
    | integer i =>
      rw [Setting.toJson] at h
      split at h <;> cases h
    | flag | real | list | table =>
      rw [Setting.toJson] at h
      cases h

/-- The entries of a section; one that is not set has none. -/
theorem exists_entries {decoder : Json.Decoder β} {start b : β}
    (hempty : decoder.view (.object []) = .ok start) (h : Reads decoder start setting? b)
    (htable : ∀ setting, setting? = some setting → ∃ entries, setting = .table entries) :
    ∃ entries, decoder.view (Setting.table entries).toJson = .ok b ∧
      ∀ name path, setting?.bind (Setting.at? (name :: path)) =
        (entries.lookup name).bind (Setting.at? path) := by
  cases setting? with
  | none =>
    have hb : b = start := h
    refine ⟨[], ?_, fun _ _ => rfl⟩
    rw [Setting.toJson, Setting.entriesToJson, hempty, hb]
  | some setting =>
    obtain ⟨entries, rfl⟩ := htable setting rfl
    exact ⟨entries, h, fun name path => Setting.at?_table name path entries⟩

end Settable

/-! ## Leaves -/

/-- A setting. -/
inductive Leaf where
  | path
  | pollInterval
  | tableName (c : Collection)
  | host
  | port
  | staticDir
  | maxConnections
  | feedBuffer
deriving DecidableEq

namespace Leaf

/-- Where a setting stands in the tree. -/
def place : Leaf → List String
  | path => ["store", "path"]
  | pollInterval => ["store", "poll_interval_ms"]
  | tableName c => ["store", "collections", c.name]
  | host => ["server", "host"]
  | port => ["server", "port"]
  | staticDir => ["server", "static_dir"]
  | maxConnections => ["server", "max_connections"]
  | feedBuffer => ["server", "feed_buffer"]

/-- The value of a setting. There need not be a directory of files. -/
def value? (config : Config) : Leaf → Option Setting
  | path => some (.text config.store.path)
  | pollInterval => some (.integer config.store.pollInterval)
  | tableName c => some (.text (config.store.names.get c))
  | host => some (.text config.server.host)
  | port => some (.integer config.server.port)
  | staticDir => config.server.staticDir?.map .text
  | maxConnections => some (.integer config.server.maxConnections)
  | feedBuffer => some (.integer config.server.feedBuffer)

/-- No setting is a table. -/
theorem isTable_of_value? {config : Config} {leaf : Leaf} {setting : Setting}
    (h : leaf.value? config = some setting) : setting.isTable = false := by
  cases leaf with
  | path | tableName | host | pollInterval | port | maxConnections | feedBuffer =>
    exact Option.some.inj h ▸ rfl
  | staticDir =>
    obtain ⟨dir, -, rfl⟩ := Option.map_eq_some_iff.1 h
    rfl

end Leaf

section Leaves

open Settable

variable {entries : List (String × Setting)}

theorem CollectionNames.reads_name {names : CollectionNames}
    (h : CollectionNames.decoder.view (Setting.table entries).toJson = .ok names)
    (c : Collection) :
    Reads (.text "a string") c.name (entries.lookup c.name) (names.get c) := by
  have hothers : (Collection.all.map fun d => Settable.field d.name (.text "a string")
      fun name (names : CollectionNames) => names.set d name).Forall
      fun f => f.name = c.name ∨ Leaves (ByCollection.get · c) f := by
    refine List.forall_iff_forall_mem.2 fun f hf => ?_
    obtain ⟨d, -, rfl⟩ := List.mem_map.1 hf
    by_cases hd : d = c
    · exact .inl (congrArg Collection.name hd)
    · exact .inr (leaves_field d.name fun name names => names.get_set_of_ne (Ne.symm hd) name)
  have hfind := reads_view (ByCollection.get · c) (fun name names => names.set c name)
    h (by cases c <;> rfl) (fun name names => names.get_set_self c name) hothers
  cases c <;> exact hfind

/-- The settings of the store are read from their members. -/
structure StoreSettings.IsRead (entries : List (String × Setting)) (s : StoreSettings) : Prop where
  path : Reads (.text "path string") "labfeed.db" (entries.lookup "path") s.path
  pollInterval : Reads (.natural "u64" 0xFFFFFFFFFFFFFFFF) 250
    (entries.lookup "poll_interval_ms") s.pollInterval
  names : Reads CollectionNames.decoder (.ofFn Collection.name) (entries.lookup "collections")
    s.names

theorem StoreSettings.isRead {s : StoreSettings}
    (h : StoreSettings.decoder.view (Setting.table entries).toJson = .ok s) :
    s.IsRead entries where
  path := reads_view StoreSettings.path (fun path s => { s with path })
    h rfl (fun _ _ => rfl)
    ⟨.inl rfl, .inr (leaves_field _ fun _ _ => rfl), .inr (leaves_field _ fun _ _ => rfl)⟩
  pollInterval := reads_view StoreSettings.pollInterval
    (fun pollInterval s => { s with pollInterval }) h rfl (fun _ _ => rfl)
    ⟨.inr (leaves_field _ fun _ _ => rfl), .inl rfl, .inr (leaves_field _ fun _ _ => rfl)⟩
  names := reads_view StoreSettings.names (fun names s => { s with names })
    h rfl (fun _ _ => rfl)
    ⟨.inr (leaves_field _ fun _ _ => rfl), .inr (leaves_field _ fun _ _ => rfl), .inl rfl⟩

/-- The settings of the server are read from their members. -/
structure ServerSettings.IsRead (entries : List (String × Setting)) (s : ServerSettings) :
    Prop where
  host : Reads (.text "a string") "127.0.0.1" (entries.lookup "host") s.host
  port : Reads (.natural "u16" 0xFFFF) 3000 (entries.lookup "port") s.port
  staticDir : Reads (.optional (.text "path string")) none (entries.lookup "static_dir")
    s.staticDir?
  maxConnections : Reads (.natural "usize" 0xFFFFFFFFFFFFFFFF) 1024
    (entries.lookup "max_connections") s.maxConnections
  feedBuffer : Reads (.natural "usize" 0xFFFFFFFFFFFFFFFF) 64
    (entries.lookup "feed_buffer") s.feedBuffer

theorem ServerSettings.isRead {s : ServerSettings}
    (h : ServerSettings.decoder.view (Setting.table entries).toJson = .ok s) :
    s.IsRead entries where
  host := reads_view ServerSettings.host (fun host s => { s with host })
    h rfl (fun _ _ => rfl)
    ⟨.inl rfl, .inr (leaves_field _ fun _ _ => rfl), .inr (leaves_field _ fun _ _ => rfl),
      .inr (leaves_field _ fun _ _ => rfl), .inr (leaves_field _ fun _ _ => rfl)⟩
  port := reads_view ServerSettings.port (fun port s => { s with port })
    h rfl (fun _ _ => rfl)
    ⟨.inr (leaves_field _ fun _ _ => rfl), .inl rfl, .inr (leaves_field _ fun _ _ => rfl),
      .inr (leaves_field _ fun _ _ => rfl), .inr (leaves_field _ fun _ _ => rfl)⟩
  staticDir := reads_view ServerSettings.staticDir? (fun staticDir? s => { s with staticDir? })
    h rfl (fun _ _ => rfl)
    ⟨.inr (leaves_field _ fun _ _ => rfl), .inr (leaves_field _ fun _ _ => rfl), .inl rfl,
      .inr (leaves_field _ fun _ _ => rfl), .inr (leaves_field _ fun _ _ => rfl)⟩
  maxConnections := reads_view ServerSettings.maxConnections
    (fun maxConnections s => { s with maxConnections }) h rfl (fun _ _ => rfl)
    ⟨.inr (leaves_field _ fun _ _ => rfl), .inr (leaves_field _ fun _ _ => rfl),
      .inr (leaves_field _ fun _ _ => rfl), .inl rfl, .inr (leaves_field _ fun _ _ => rfl)⟩
  feedBuffer := reads_view ServerSettings.feedBuffer (fun feedBuffer s => { s with feedBuffer })
    h rfl (fun _ _ => rfl)
    ⟨.inr (leaves_field _ fun _ _ => rfl), .inr (leaves_field _ fun _ _ => rfl),
      .inr (leaves_field _ fun _ _ => rfl), .inr (leaves_field _ fun _ _ => rfl), .inl rfl⟩

/-- The settings are read from the members of their sections. -/
theorem Config.isRead {config : Config}
    (h : Config.decoder.view (Setting.table entries).toJson = .ok config) :
    Reads StoreSettings.decoder {} (entries.lookup "store") config.store ∧
      Reads ServerSettings.decoder {} (entries.lookup "server") config.server :=
  ⟨reads_view Config.store (fun store c => { c with store }) h rfl (fun _ _ => rfl)
      ⟨.inl rfl, .inr (leaves_field _ fun _ _ => rfl)⟩,
    reads_view Config.server (fun server c => { c with server }) h rfl
      (fun _ _ => rfl) ⟨.inr (leaves_field _ fun _ _ => rfl), .inl rfl⟩⟩

/-- Settings that are read from a tree have at each leaf what the tree has there, or the default. -/
theorem Leaf.value?_of_view {setting : Setting} {config : Config}
    (h : Config.decoder.view setting.toJson = .ok config)
    (halong : ∀ leaf : Leaf, IsTableAlong leaf.place setting) (leaf : Leaf) :
    leaf.value? config = (setting.at? leaf.place).or (leaf.value? {}) := by
  obtain ⟨root, rfl, hstore⟩ := halong .path
  obtain ⟨_, heq, hserver⟩ := halong .host
  obtain rfl := Setting.table.inj heq
  obtain ⟨hstoreReads, hserverReads⟩ := Config.isRead h
  obtain ⟨store, hstoreView, hstoreAt⟩ := exists_entries rfl hstoreReads
    fun inner hinner => (hstore inner hinner).imp fun _ h => h.1
  obtain ⟨server, hserverView, hserverAt⟩ := exists_entries rfl hserverReads
    fun inner hinner => (hserver inner hinner).imp fun _ h => h.1
  have hstoreLeaf : ∀ name, (Setting.table root).at? ["store", name] = store.lookup name := by
    intro name
    rw [Setting.at?_table, hstoreAt]
    exact Option.bind_fun_some _
  have hserverLeaf : ∀ name, (Setting.table root).at? ["server", name] = server.lookup name := by
    intro name
    rw [Setting.at?_table, hserverAt]
    exact Option.bind_fun_some _
  have hstoreRead := StoreSettings.isRead hstoreView
  have hserverRead := ServerSettings.isRead hserverView
  cases leaf with
  | path => exact hstoreLeaf _ ▸ reads_text hstoreRead.path
  | pollInterval => exact hstoreLeaf _ ▸ reads_natural hstoreRead.pollInterval
  | host => exact hserverLeaf _ ▸ reads_text hserverRead.host
  | port => exact hserverLeaf _ ▸ reads_natural hserverRead.port
  | staticDir => exact hserverLeaf _ ▸ reads_optional hserverRead.staticDir
  | maxConnections => exact hserverLeaf _ ▸ reads_natural hserverRead.maxConnections
  | feedBuffer => exact hserverLeaf _ ▸ reads_natural hserverRead.feedBuffer
  | tableName c =>
    obtain ⟨names, hnamesView, hnamesAt⟩ := exists_entries rfl hstoreRead.names
      fun inner hinner => Setting.exists_table_of_at?
        (halong (.tableName c)) ((hstoreLeaf _).trans hinner)
    have hleaf : (Setting.table root).at? ["store", "collections", c.name] =
        names.lookup c.name := by
      rw [Setting.at?_table, hstoreAt, hnamesAt]
      exact Option.bind_fun_some _
    have hname := reads_text (CollectionNames.reads_name hnamesView c)
    rw [← hleaf] at hname
    exact hname.trans (by rw [← ByCollection.get_ofFn Collection.name c]; rfl)

end Leaves

/-! ## Layers -/

/-- Whether the sections of the settings are tables where they are set. -/
def Setting.HasSections (setting : Setting) : Prop :=
  ∀ path ∈ [["store"], ["store", "collections"], ["server"]], ∀ inner,
    setting.at? path = some inner → inner.isTable = true

/-- A source of settings. -/
inductive Layer where
  | user
  | workspace
  | explicit
  | environment
deriving DecidableEq

/-- The sources, the weakest first. -/
def Layer.all : List Layer := [user, workspace, explicit, environment]

namespace ConfigSources

/-- What a document sets, if it is there and can be read. -/
def document? (text? : Option String) : Option Setting :=
  text?.bind fun text => (Toml.parse text).toOption

/-- What a source sets, if it is there and can be read. -/
def layer? (sources : ConfigSources) : Layer → Option Setting
  | .user => document? sources.user?
  | .workspace => document? sources.workspace?
  | .explicit => document? (sources.explicit?.bind (·.2))
  | .environment => some sources.environment.setting

/-- The sources without one of them. -/
def without (sources : ConfigSources) : Layer → ConfigSources
  | .user => { sources with user? := none }
  | .workspace => { sources with workspace? := none }
  | .explicit => { sources with explicit? := none }
  | .environment => { sources with environment := [] }

/-- What a source sets at a leaf. -/
def mentioned? (sources : ConfigSources) (leaf : Leaf) (layer : Layer) : Option Setting :=
  (sources.layer? layer).bind (Setting.at? leaf.place)

/-- What the strongest of the sources that set a leaf sets there. -/
def given? (sources : ConfigSources) (leaf : Leaf) : Option Setting :=
  Layer.all.reverse.findSome? (sources.mentioned? leaf)

/-- Whether the sections are tables in every source. -/
def HasSections (sources : ConfigSources) : Prop :=
  ∀ layer tree, sources.layer? layer = some tree → tree.HasSections

end ConfigSources

/-- How settings come from their sources. -/
structure Config.FollowsLayers (sources : ConfigSources) (config : Config) : Prop where
  /-- Each setting is what the strongest source that sets it says, or else the default. -/
  follows : ∀ leaf : Leaf,
    leaf.value? config = (sources.given? leaf).or (leaf.value? {})
  /-- Of the variables of the environment it is the last one that sets it. -/
  follows_variable : (∀ tree ∈ sources.environment.trees, tree.HasSections) → ∀ leaf : Leaf,
    sources.mentioned? leaf .environment = topmost? leaf.place sources.environment.trees
  /-- A source that does not mention a setting might as well not be there. -/
  ignores : ∀ layer config', Config.load (sources.without layer) = .ok config' →
    ∀ leaf : Leaf, sources.mentioned? leaf layer = none → leaf.value? config' = leaf.value? config
  validates : config.validate = .ok config

section Layers

variable {setting : Setting} {sources : ConfigSources} {config : Config}

theorem isTableAlong_of_hasSections (htable : setting.isTable = true) (h : setting.HasSections)
    (leaf : Leaf) : IsTableAlong leaf.place setting := by
  have hempty : IsTableAlong [] setting := trivial
  have hroot (name : String) : IsTableAlong [name] setting :=
    Setting.isTableAlong_concat hempty
      (fun inner hinner => Option.some.inj hinner ▸ htable) name
  have hsection (path : List String)
      (hpath : path ∈ [["store"], ["store", "collections"], ["server"]])
      (halong : IsTableAlong path setting) (name : String) :
      IsTableAlong (path ++ [name]) setting :=
    Setting.isTableAlong_concat halong (h path hpath) name
  have hstore := hsection ["store"] (by decide) (hroot "store")
  have hserver := hsection ["server"] (by decide) (hroot "server")
  cases leaf with
  | path | pollInterval => exact hstore _
  | tableName c => exact hsection ["store", "collections"] (by decide) (hstore "collections") c.name
  | host | port | staticDir | maxConnections | feedBuffer => exact hserver _

/-- The trees of the sources, the weakest first. -/
def ConfigSources.trees (sources : ConfigSources) : List Setting :=
  Layer.all.filterMap sources.layer?

theorem mapM_parse_eq {texts : List String} {documents : List Setting}
    (h : texts.mapM Toml.parse = .ok documents) :
    documents = texts.filterMap fun text => (Toml.parse text).toOption := by
  induction texts generalizing documents with
  | nil => exact (Except.ok.inj h).symm
  | cons text texts ih =>
    rw [List.mapM_cons] at h
    obtain ⟨document, hdocument, h⟩ := exists_of_bind_eq_ok h
    obtain ⟨rest, hrest, h⟩ := exists_of_bind_eq_ok h
    obtain rfl := Except.ok.inj h
    rw [List.filterMap_cons_some (b := document) (by rw [hdocument]; rfl), ih hrest]

theorem ConfigSources.setting_eq_ok {tree : Setting} (h : sources.setting = .ok tree) :
    tree = .overlay sources.trees := by
  obtain ⟨documents, hdocuments, h⟩ := exists_of_bind_eq_ok h
  obtain rfl := Except.ok.inj h
  have htext (text? : Option String) : text?.toList.filterMap
      (fun text => (Toml.parse text).toOption) = (document? text?).toList := by
    cases text? with
    | none => rfl
    | some text =>
      change [text].filterMap _ = ((Toml.parse text).toOption).toList
      rw [List.filterMap_cons]
      cases (Toml.parse text).toOption <;> rfl
  have htrees : sources.trees = (document? sources.user?).toList ++
      (document? sources.workspace?).toList ++
      (document? (sources.explicit?.bind (·.2))).toList ++ [sources.environment.setting] := by
    simp only [trees, Layer.all, List.filterMap_cons, layer?, List.filterMap_nil]
    cases document? sources.user? <;> cases document? sources.workspace? <;>
      cases document? (sources.explicit?.bind (·.2)) <;> rfl
  rw [htrees, mapM_parse_eq hdocuments, ConfigSources.texts, List.filterMap_append,
    List.filterMap_append, htext, htext, htext]

theorem ConfigSources.given?_eq (sources : ConfigSources) (leaf : Leaf) :
    sources.given? leaf = topmost? leaf.place sources.trees := by
  rw [topmost?, trees, ← List.filterMap_reverse, given?]
  generalize Layer.all.reverse = layers
  induction layers with
  | nil => rfl
  | cons layer layers ih =>
    rw [List.findSome?_cons, ih, mentioned?]
    cases hlayer : sources.layer? layer with
    | none => rw [List.filterMap_cons_none hlayer, Option.bind_none]
    | some tree => rw [List.filterMap_cons_some hlayer, List.findSome?_cons, Option.bind_some]

theorem ConfigSources.isDistinct_trees (sources : ConfigSources) :
    ∀ tree ∈ sources.trees, tree.IsDistinct ∧ tree.isTable = true := by
  have hdocument (text? : Option String) (tree : Setting) (h : document? text? = some tree) :
      tree.IsDistinct ∧ tree.isTable = true := by
    obtain ⟨text, -, h⟩ := Option.bind_eq_some_iff.1 h
    cases hparse : Toml.parse text with
    | error reason =>
      rw [hparse] at h
      cases h
    | ok setting =>
      rw [hparse] at h
      exact Option.some.inj h ▸ Toml.isDistinct_parse hparse
  intro tree htree
  obtain ⟨layer, -, hlayer⟩ := List.mem_filterMap.1 htree
  cases layer with
  | user | workspace | explicit => exact hdocument _ tree hlayer
  | environment =>
    obtain rfl := Option.some.inj hlayer
    exact ⟨sources.environment.isDistinct_setting, sources.environment.isTable_setting⟩

/-- A source that is left out sets nothing, and the others set what they set. -/
theorem ConfigSources.mentioned?_without (sources : ConfigSources) (layer other : Layer)
    (leaf : Leaf) : (sources.without layer).mentioned? leaf other =
      if other = layer then none else sources.mentioned? leaf other := by
  have hnothing : Setting.nothing.at? leaf.place = none := by
    cases leaf <;> rfl
  cases layer <;> cases other <;> first | rfl | exact hnothing

theorem ConfigSources.hasSections_without (h : sources.HasSections) (layer : Layer) :
    (sources.without layer).HasSections := by
  intro other tree htree
  by_cases heq : other = layer
  · subst heq
    cases other with
    | user | workspace | explicit => cases htree
    | environment =>
      obtain rfl := Option.some.inj htree
      intro path hpath inner hinner
      simp only [List.mem_cons, List.not_mem_nil, or_false] at hpath
      rcases hpath with rfl | rfl | rfl <;> cases hinner
  · refine h other tree ?_
    cases layer <;> cases other <;> first | exact htree | exact absurd rfl heq

theorem ConfigSources.given?_without {leaf : Leaf} {layer : Layer}
    (h : sources.mentioned? leaf layer = none) :
    (sources.without layer).given? leaf = sources.given? leaf := by
  have hsame : (sources.without layer).mentioned? leaf = sources.mentioned? leaf := by
    funext other
    rw [mentioned?_without]
    split
    · rename_i heq
      rw [heq, h]
    · rfl
  rw [given?, given?, hsame]

theorem Config.exists_setting_of_load (h : Config.load sources = .ok config) :
    sources.missing? = none ∧
      Config.decoder.view (Setting.overlay sources.trees).toJson = .ok config ∧
      config.fault? = none := by
  unfold Config.load at h
  split at h
  · cases h
  · rename_i hmissing
    split at h
    · cases h
    · rename_i setting hsetting
      obtain rfl := ConfigSources.setting_eq_ok hsetting
      obtain ⟨decoded, hdecoded, hvalid⟩ := exists_of_bind_eq_ok h
      unfold Config.validate at hvalid
      split at hvalid
      · cases hvalid
      · rename_i hfault
        obtain rfl := Except.ok.inj hvalid
        refine ⟨hmissing, ?_, hfault⟩
        unfold Config.ofSetting at hdecoded
        split at hdecoded
        · rename_i hview
          exact Except.ok.inj hdecoded ▸ hview
        · cases hdecoded

theorem Environment.setting_single {name : String} {path : List String}
    (h : Environment.path? name = some path) (value : String) :
    Environment.setting [(name, value)] = .overlay [.under path (.ofText value)] := by
  have hset : (Environment.path? name).map (Setting.under · (.ofText value)) =
      some (.under path (.ofText value)) := by rw [h, Option.map_some]
  exact congrArg Setting.overlay (List.filterMap_cons_some hset)

theorem Config.load_of_setting {tree : Setting} (hmissing : sources.missing? = none)
    (htree : sources.setting = .ok tree) (hview : Config.decoder.view tree.toJson = .ok config)
    (hvalid : config.fault? = none) : Config.load sources = .ok config := by
  unfold Config.load
  rw [hmissing, htree]
  change (Config.ofSetting tree).bind Config.validate = _
  rw [Config.ofSetting, hview]
  change config.validate = _
  rw [Config.validate, hvalid]

/-- What stands at a leaf of all sources together is what the strongest one sets. -/
theorem Leaf.at?_overlay (leaf : Leaf) {trees : List Setting}
    (htrees : ∀ tree ∈ trees, tree.IsDistinct ∧ IsTableAlong leaf.place tree)
    (hplain : ∀ v, (Setting.overlay trees).at? leaf.place = some v → v.isTable = false) :
    (Setting.overlay trees).at? leaf.place = topmost? leaf.place trees := by
  cases leaf <;> exact Setting.at?_overlay htrees hplain

theorem Leaf.isTableAlong_overlay (leaf : Leaf) {trees : List Setting}
    (htrees : ∀ tree ∈ trees, tree.IsDistinct ∧ IsTableAlong leaf.place tree) :
    IsTableAlong leaf.place (Setting.overlay trees) := by
  have hnothing : IsTableAlong leaf.place Setting.nothing := by
    cases leaf <;> exact ⟨[], rfl, nofun⟩
  exact (Setting.foldl_at? htrees hnothing).2

theorem Config.value?_of_load (hsections : sources.HasSections)
    (h : Config.load sources = .ok config) (leaf : Leaf) :
    leaf.value? config = (sources.given? leaf).or (leaf.value? {}) ∧
      ∀ v, sources.given? leaf = some v → v.isTable = false := by
  have htrees (leaf : Leaf) : ∀ tree ∈ sources.trees,
      tree.IsDistinct ∧ IsTableAlong leaf.place tree := by
    intro tree htree
    obtain ⟨hdistinct, htable⟩ := sources.isDistinct_trees tree htree
    obtain ⟨layer, -, hlayer⟩ := List.mem_filterMap.1 htree
    exact ⟨hdistinct, isTableAlong_of_hasSections htable (hsections layer tree hlayer) leaf⟩
  obtain ⟨-, hview, -⟩ := Config.exists_setting_of_load h
  have hvalue :=
    Leaf.value?_of_view hview (fun leaf => leaf.isTableAlong_overlay (htrees leaf)) leaf
  have hplain : ∀ v, (Setting.overlay sources.trees).at? leaf.place = some v →
      v.isTable = false := by
    intro v hv
    rw [hv, Option.some_or] at hvalue
    exact Leaf.isTable_of_value? hvalue
  have htopmost := leaf.at?_overlay (htrees leaf) hplain
  rw [← sources.given?_eq] at htopmost
  rw [htopmost] at hvalue hplain
  exact ⟨hvalue, hplain⟩

/-- Settings that are loaded follow the layers of their sources, whose sections are tables where
they are set. Without the document that is asked for nothing is loaded. -/
theorem settings_follow_layers (sources : ConfigSources) :
    (∀ path, sources.explicit? = some (path, none) →
      Config.load sources = .error (.invalid (ConfigFault.missingFile path).describe)) ∧
      (sources.HasSections → ∀ config, Config.load sources = .ok config →
        config.FollowsLayers sources) := by
  constructor
  · intro path hpath
    unfold Config.load ConfigSources.missing?
    rw [hpath]
  · intro hsections config hload
    refine ⟨fun leaf => (Config.value?_of_load hsections hload leaf).1, fun hvariables leaf => ?_,
      fun layer config' hload' leaf hmentioned => ?_, ?_⟩
    · refine leaf.at?_overlay (fun tree htree => ?_) fun v hv => ?_
      · exact ⟨sources.environment.isDistinct_trees tree htree, isTableAlong_of_hasSections
          (sources.environment.isTable_trees tree htree) (hvariables tree htree) leaf⟩
      · -- the environment is the strongest source
        have hgiven : sources.given? leaf = some v :=
          List.findSome?_eq_some_iff.2 ⟨[], .environment, [.explicit, .workspace, .user], rfl, hv,
            nofun⟩
        exact (Config.value?_of_load hsections hload leaf).2 v hgiven
    · rw [(Config.value?_of_load hsections hload leaf).1,
        (Config.value?_of_load (sources.hasSections_without hsections layer) hload' leaf).1,
        sources.given?_without hmentioned]
    · unfold Config.validate
      rw [(Config.exists_setting_of_load hload).2.2]

/-- A document that says where the server listens. -/
def listeningDocument (host : String) (port : Nat) : String :=
  Toml.render [{ path := ["server"], entries := [("host", .text host), ("port", .number port)] }]
    ++ "\n"

theorem parse_listeningDocument (host : String) {port : Nat} (h : port < 0x8000000000000000) :
    Toml.parse (listeningDocument host port) =
      .ok (.table [("server", .table [("host", .text host), ("port", .integer port)])]) := by
  have hreadable : ∀ s ∈ [{ path := ["server"], entries := [("host", .text host),
      ("port", .number port)] : Toml.Section }], s.IsReadable := by
    intro s hs
    obtain rfl := List.mem_singleton.1 hs
    exact {
      path_ne := List.cons_ne_nil _ _
      length_path := by simp [Toml.maxDepth]
      path := by simp [Toml.IsBareName, Toml.isBare]
      names := by simp [Toml.IsBareName, Toml.isBare]
      values := by simp [Toml.Plain.IsReadable, h] }
  exact Toml.parse_render (List.cons_ne_nil _ _) hreadable rfl

theorem hasSections_server (entries : List (String × Setting)) :
    (Setting.table [("server", .table entries)]).HasSections := by
  intro path hpath inner hinner
  simp only [List.mem_cons, List.not_mem_nil, or_false] at hpath
  rcases hpath with rfl | rfl | rfl
  · cases hinner
  · cases hinner
  · exact Option.some.inj hinner ▸ rfl

/-- A document of the workspace, and a variable that is laid over it. -/
def portSources : ConfigSources where
  workspace? := some (listeningDocument "::1" 2)
  environment := [("LABFEED_SERVER__PORT", "3")]

/-- The port is that of the variable, and the host that of the document. -/
theorem port_follows_layers :
    Config.load portSources = .ok { server := { host := "::1", port := 3 } } ∧
      Config.FollowsLayers portSources { server := { host := "::1", port := 3 } } := by
  have hparse : Toml.parse (listeningDocument "::1" 2) =
      .ok (.table [("server", .table [("host", .text "::1"), ("port", .integer 2)])]) :=
    parse_listeningDocument "::1" (by decide)
  have hname : Environment.path? "LABFEED_SERVER__PORT" = some ["server", "port"] := rfl
  have hvalue : Setting.ofText "3" = .integer 3 := rfl
  have hvariable : portSources.environment.setting =
      .table [("server", .table [("port", .integer 3)])] := by
    rw [portSources, Environment.setting_single hname, hvalue]
    rfl
  have hsetting : portSources.setting =
      .ok (.table [("server", .table [("host", .text "::1"), ("port", .integer 3)])]) := by
    change (([listeningDocument "::1" 2].mapM Toml.parse) >>= fun documents =>
      Except.ok (Setting.overlay (documents ++ [portSources.environment.setting]))) = _
    rw [List.mapM_cons, hparse, hvariable]
    rfl
  have hview : Config.decoder.view (Setting.table [("server", .table
      [("host", .text "::1"), ("port", .integer 3)])]).toJson =
        .ok { server := { host := "::1", port := 3 } } := rfl
  have hload : Config.load portSources = .ok { server := { host := "::1", port := 3 } } :=
    Config.load_of_setting rfl hsetting hview (by decide)
  refine ⟨hload, (settings_follow_layers portSources).2 (fun layer tree htree => ?_) _ hload⟩
  cases layer with
  | user | explicit => cases htree
  | workspace =>
    change (Toml.parse (listeningDocument "::1" 2)).toOption = some tree at htree
    rw [hparse] at htree
    exact Option.some.inj htree ▸ hasSections_server _
  | environment =>
    change some portSources.environment.setting = some tree at htree
    rw [hvariable] at htree
    exact Option.some.inj htree ▸ hasSections_server _

end Layers

end TrialBoard
