import TrialBoard.Config.Form
import TrialBoard.Proofs.EncodedText

/-!
# The text of the settings

What is decoded of the settings is decoded again from their own text: numbers that were read are
within the range of their setting, and every setting is written, so that no default comes in.
-/

namespace TrialBoard

open Json (Takes IsStable)

namespace Settable

variable {α β : Type} {room : Nat} {p : α → Prop}

theorem gives_field {decoder : Json.Decoder β} {q : β → Prop} {set : β → α → α} (name : String)
    (h : decoder.Gives room q) (hset : ∀ b a, q b → p a → p (set b a)) :
    (field name decoder set).decoder.Gives room fun f => ∀ s, p s.value → p (f s).value :=
  Json.Decoder.gives_map (h.mono fun b hb s hs => hset b s.value hb hs)

theorem gives {fields : List (Json.Field (Settable α))} {start : α} (expected : String)
    (hstart : p start) (hfields : ∀ field ∈ fields,
      field.decoder.Gives room fun f => ∀ s, p s.value → p (f s).value) :
    (shape expected start fields).decoder.Gives (room + 1) p := by
  have hkeeps : (shape expected start fields).Keeps room fun s => p s.value :=
    ⟨hstart, hfields, nofun⟩
  refine hkeeps.gives fun s a hs hfinish => ?_
  obtain rfl := Except.ok.inj hfinish
  exact hs

theorem takes_field {decoder : Json.Decoder β} {v : Json} {b : β} (name : String)
    (set : β → α → α) (h : Takes (decoder.read room) v b) :
    Takes ((field name decoder set).decoder.read room) v
      fun s => { value := set b s.value, seen := name :: s.seen } :=
  Json.Decoder.takes_map h _

end Settable

namespace CollectionNames

theorem gives (room : Nat) : decoder.Gives (room + 1) fun _ => True := by
  refine Settable.gives _ trivial fun field hfield => ?_
  obtain ⟨c, -, rfl⟩ := List.mem_map.1 hfield
  exact Settable.gives_field (p := fun _ => True) _ (Json.Decoder.gives_text _ room)
    fun _ _ _ _ => trivial

theorem takes (names : CollectionNames) (room : Nat) :
    Takes (decoder.read (room + 1)) names.toJson names := by
  have hname (c : Collection) := Settable.takes_field c.name
    (fun name (names : CollectionNames) => names.set c name)
    (Json.Decoder.takes_text "a string" (names.get c) room)
  refine Json.Shape.Collects.takes (.cons rfl rfl (hname .experiments) (.cons rfl rfl
    (hname .transformations) (.cons rfl rfl (hname .tests) (.cons rfl rfl (hname .analytics)
      .nil)))) ?_
  rfl

end CollectionNames

/-- A number of 64 bits is one of JSON. -/
theorem fitsWord_of_le {n : Nat} (h : n ≤ 0xFFFFFFFFFFFFFFFF) : FitsWord n := by omega

namespace StoreSettings

/-- Whether the number of the settings of the store is one of 64 bits. -/
def IsSized (s : StoreSettings) : Prop := s.pollInterval ≤ 0xFFFFFFFFFFFFFFFF

theorem isSized_default : ({} : StoreSettings).IsSized := by
  have hdefault : 250 ≤ 0xFFFFFFFFFFFFFFFF := by decide
  exact hdefault

theorem gives (room : Nat) : decoder.Gives (room + 2) IsSized := by
  refine Settable.gives _ isSized_default fun field hfield => ?_
  simp only [List.mem_cons, List.not_mem_nil, or_false] at hfield
  rcases hfield with rfl | rfl | rfl
  · exact Settable.gives_field _ (Json.Decoder.gives_text _ _) fun _ _ _ hs => hs
  · exact Settable.gives_field _ (Json.Decoder.gives_natural _ _ _) fun _ _ hn _ => hn
  · exact Settable.gives_field _ (CollectionNames.gives room) fun _ _ _ hs => hs

theorem takes {s : StoreSettings} (h : s.IsSized) (room : Nat) :
    Takes (decoder.read (room + 2)) s.toJson s := by
  have hpath := Settable.takes_field "path" (fun path (s : StoreSettings) => { s with path })
    (Json.Decoder.takes_text "path string" s.path (room + 1))
  have hinterval := Settable.takes_field "poll_interval_ms"
    (fun pollInterval (s : StoreSettings) => { s with pollInterval })
    (Json.Decoder.takes_natural "u64" h (fitsWord_of_le h) (room + 1))
  have hnames := Settable.takes_field "collections"
    (fun names (s : StoreSettings) => { s with names }) (CollectionNames.takes s.names room)
  refine Json.Shape.Collects.takes
    (.cons rfl rfl hpath (.cons rfl rfl hinterval (.cons rfl rfl hnames .nil))) ?_
  rfl

end StoreSettings

namespace ServerSettings

/-- Whether the numbers of the settings of the server are within their ranges. -/
structure IsSized (s : ServerSettings) : Prop where
  port : s.port ≤ 0xFFFF
  maxConnections : s.maxConnections ≤ 0xFFFFFFFFFFFFFFFF
  feedBuffer : s.feedBuffer ≤ 0xFFFFFFFFFFFFFFFF

theorem isSized_default : ({} : ServerSettings).IsSized := by
  constructor <;> decide

theorem gives (room : Nat) : decoder.Gives (room + 1) IsSized := by
  refine Settable.gives _ isSized_default fun field hfield => ?_
  simp only [List.mem_cons, List.not_mem_nil, or_false] at hfield
  rcases hfield with rfl | rfl | rfl | rfl | rfl
  · exact Settable.gives_field _ (Json.Decoder.gives_text _ room) fun _ _ _ hs =>
      ⟨hs.port, hs.maxConnections, hs.feedBuffer⟩
  · exact Settable.gives_field _ (Json.Decoder.gives_natural _ _ room) fun _ _ hn hs =>
      ⟨hn, hs.maxConnections, hs.feedBuffer⟩
  · exact Settable.gives_field _ (Json.Decoder.gives_optional (Json.Decoder.gives_text _ room))
      fun _ _ _ hs => ⟨hs.port, hs.maxConnections, hs.feedBuffer⟩
  · exact Settable.gives_field _ (Json.Decoder.gives_natural _ _ room) fun _ _ hn hs =>
      ⟨hs.port, hn, hs.feedBuffer⟩
  · exact Settable.gives_field _ (Json.Decoder.gives_natural _ _ room) fun _ _ hn hs =>
      ⟨hs.port, hs.maxConnections, hn⟩

theorem takes {s : ServerSettings} (h : s.IsSized) (room : Nat) :
    Takes (decoder.read (room + 1)) s.toJson s := by
  have hhost := Settable.takes_field "host" (fun host (s : ServerSettings) => { s with host })
    (Json.Decoder.takes_text "a string" s.host room)
  have hport := Settable.takes_field "port" (fun port (s : ServerSettings) => { s with port })
    (Json.Decoder.takes_natural "u16" h.port (fitsWord_of_le (h.port.trans (by decide))) room)
  have hoptional : Takes ((Json.Decoder.optional (.text "path string")).read room)
      ((s.staticDir?.map Json.string).getD .null) s.staticDir? := by
    cases s.staticDir? with
    | none => exact Json.Decoder.takes_optional_null _ room
    | some dir => exact Json.Decoder.takes_optional nofun (Json.Decoder.takes_text _ dir room)
  have hdir := Settable.takes_field "static_dir"
    (fun staticDir? (s : ServerSettings) => { s with staticDir? }) hoptional
  have hmax := Settable.takes_field "max_connections"
    (fun maxConnections (s : ServerSettings) => { s with maxConnections })
    (Json.Decoder.takes_natural "usize" h.maxConnections (fitsWord_of_le h.maxConnections) room)
  have hbuffer := Settable.takes_field "feed_buffer"
    (fun feedBuffer (s : ServerSettings) => { s with feedBuffer })
    (Json.Decoder.takes_natural "usize" h.feedBuffer (fitsWord_of_le h.feedBuffer) room)
  refine Json.Shape.Collects.takes (.cons rfl rfl hhost (.cons rfl rfl hport (.cons rfl rfl hdir
    (.cons rfl rfl hmax (.cons rfl rfl hbuffer .nil))))) ?_
  rfl

end ServerSettings

namespace Config

/-- Whether the numbers of the settings are within their ranges. -/
structure IsSized (c : Config) : Prop where
  store : c.store.IsSized
  server : c.server.IsSized

theorem gives (room : Nat) : decoder.Gives (room + 3) IsSized := by
  have hstart : ({} : Config).IsSized :=
    ⟨StoreSettings.isSized_default, ServerSettings.isSized_default⟩
  refine Settable.gives _ hstart fun field hfield => ?_
  simp only [List.mem_cons, List.not_mem_nil, or_false] at hfield
  rcases hfield with rfl | rfl
  · exact Settable.gives_field _ (StoreSettings.gives room) fun _ _ hstore hc =>
      ⟨hstore, hc.server⟩
  · exact Settable.gives_field _ (ServerSettings.gives (room + 1)) fun _ _ hserver hc =>
      ⟨hc.store, hserver⟩

theorem takes {c : Config} (h : c.IsSized) (room : Nat) :
    Takes (decoder.read (room + 3)) c.toJson c := by
  have hstore := Settable.takes_field "store" (fun store (c : Config) => { c with store })
    (StoreSettings.takes h.store room)
  have hserver := Settable.takes_field "server" (fun server (c : Config) => { c with server })
    (ServerSettings.takes h.server (room + 1))
  refine Json.Shape.Collects.takes (.cons rfl rfl hstore (.cons rfl rfl hserver .nil)) ?_
  rfl

theorem isStable : IsStable decoder.parse toJson :=
  Json.isStable_of_gives (gives 124).read fun _ h _ => takes h 124

end Config

end TrialBoard
