import TrialBoard.Proofs.DetailText
import TrialBoard.Proofs.MessageText
import TrialBoard.Proofs.SettingsText

/-!
# Formats that go over the wire

A value can be written in many ways, and is encoded in one. The text of a value that was decoded is
decoded as that value again, in every format. A row may be nested as deep as readers allow on its
own, and then is too deep inside of a change feed.
-/

namespace TrialBoard

open Json (Members IsStable maxDepth)

/-! ## Details -/

namespace Detail

variable {room : Nat}

/-- Whether rows can be ones that were decoded. -/
def AreKept (room : Nat) (rows : List Document) : Prop := ∀ row ∈ rows, (Json.object row).IsKept room

theorem gives_rows (room : Nat) : rows.Gives (room + 2) (AreKept (room + 1)) :=
  Json.Decoder.gives_list (Json.Decoder.gives_object room)

/-- What is kept of the members that were collected. -/
structure Collected.IsKept (room : Nat) (e : Collected) : Prop where
  own : ∀ m ∈ e.experiment, m.1 ∉ listNames
  experiment : (Json.object e.experiment).IsKept (room + 3)
  transformations : ∀ rs ∈ e.transformations?, AreKept (room + 1) rs
  tests : ∀ rs ∈ e.tests?, AreKept (room + 1) rs
  analytics : ∀ rs ∈ e.analytics?, AreKept (room + 1) rs

theorem isKept_insert {ms : Members} {key : String} {v : Json}
    (hms : (Json.object ms).IsKept (room + 1)) (hv : v.FitsIn room) :
    (Json.object (ms.insert key v.canonical)).IsKept (room + 1) := by
  obtain ⟨hsorted, hvalues⟩ := Json.canonical_object_iff.1 hms.canonical
  have hkept := Json.isKept_canonical hv
  refine ⟨Json.canonical_object_iff.2 ⟨Members.sorted_insert hsorted key _, fun m hm => ?_⟩,
    fun m hm => ?_⟩
  · rcases Members.mem_insert hm with rfl | hm
    · exact hkept.canonical
    · exact hvalues m hm
  · rcases Members.mem_insert hm with rfl | hm
    · exact hkept.fitsIn
    · exact hms.fitsIn m hm

theorem keeps (room : Nat) : shape.Keeps (room + 2) (Collected.IsKept room) where
  start := ⟨nofun, ⟨rfl, nofun⟩, nofun, nofun, nofun⟩
  fields := by
    intro field hfield
    simp only [shape, List.mem_cons, List.not_mem_nil, or_false] at hfield
    rcases hfield with rfl | rfl | rfl <;>
    · refine Json.Decoder.gives_map ((gives_rows room).mono fun rs hrs e he => ?_)
      constructor
      all_goals first
        | (rintro _ ⟨⟩; exact hrs)
        | exact he.own
        | exact he.experiment
        | exact he.transformations
        | exact he.tests
        | exact he.analytics
  others := by
    rintro keep ⟨⟩ key v e hkey hv he
    refine ⟨fun m hm => ?_, isKept_insert he.experiment hv, he.transformations, he.tests,
      he.analytics⟩
    rcases Members.mem_insert hm with rfl | hm
    · intro hname
      obtain ⟨field, hfield, heq⟩ := List.mem_map.1 hname
      exact hkey field hfield heq
    · exact he.own m hm

theorem gives (room : Nat) : decoder.Gives (room + 3) fun d => d.collected.IsKept room := by
  refine (keeps room).gives fun collected d hcollected hfinish => ?_
  rwa [finish_eq_ok_iff.1 hfinish] at hcollected

theorem isStable : IsStable decoder.parse toJson := by
  intro text d hread hreals
  have hkept := Json.gives_readAll (gives 124).read hread
  refine parse_toJson_iff.2 ⟨hkept.own, ?_, ?_⟩
  · have hexperiment : (Json.object d.experiment).RealsReadBack :=
      Json.realsReadBack_object fun m hm => hreals.member (List.mem_append_left _ hm)
    exact hkept.experiment.rereads hexperiment
  · have hrows : ∀ name rs, (name, rowsToJson rs) ∈ d.toJson.membersOf → AreKept 125 rs →
        ∀ row ∈ rs, (Json.object row).Rereads 125 := fun name rs hmem hrs row hrow =>
      (hrs row hrow).rereads ((hreals.member hmem).item (List.mem_map_of_mem hrow))
    unfold children
    rw [List.forall_mem_append, List.forall_mem_append]
    refine ⟨⟨hrows "transformations" _ ?_ (hkept.transformations _ rfl),
      hrows "tests" _ ?_ (hkept.tests _ rfl)⟩, hrows "analytics" _ ?_ (hkept.analytics _ rfl)⟩
    all_goals simp [toJson, Json.membersOf]

end Detail

/-! ## All formats -/

open Gateway (ServerMessage ClientMessage Envelope)

/-- What holds of the formats. -/
structure WireFormats : Prop where
  collection : IsStable (Json.Decoder.enumeration Collection.variants).parse fun c => .string c.name
  changeEvent : IsStable ChangeEvent.decoder.parse ChangeEvent.toJson
  changeFeed : IsStable ChangeFeed.decoder.parse ChangeFeed.toJson
  detail : IsStable Detail.decoder.parse Detail.toJson
  serverMessage : IsStable ServerMessage.parse ServerMessage.toJson
  clientMessage : IsStable ClientMessage.parse ClientMessage.toJson
  envelope : IsStable Envelope.decoder.parse (Envelope.toJson id)
  config : IsStable Config.decoder.parse Config.toJson
  /-- The feed of any row is decoded as itself just if it is not nested too deep. -/
  anyFeed : ∀ feed : ChangeFeed, feed.value.canonical = feed.value → feed.toJson.RealsReadBack →
    (ChangeFeed.decoder.parse feed.toJson.render = .ok feed ↔ feed.toJson.FitsIn maxDepth)
  /-- What the server makes is decoded as itself just if it is not nested too deep. -/
  anyServerMessage : ∀ m : ServerMessage, m.IsMade → m.toJson.RealsReadBack →
    (ServerMessage.parse m.toJson.render = .ok m ↔ m.toJson.FitsIn maxDepth)
  /-- A ping of any moment that was read is decoded as itself. -/
  anyPing : ∀ s t, Instant.parse s = .ok t →
    ClientMessage.parse (ClientMessage.ping t).toJson.render = .ok (.ping t)

/-- In every format, what is decoded is decoded again from its own text. -/
theorem wire_formats_are_stable : WireFormats where
  collection := Json.isStable_of_gives
    (fun cs => ((Json.Decoder.gives_enumeration Collection.variants maxDepth).read cs).mono
      fun _ _ => trivial) fun c _ _ => c.takes maxDepth
  changeEvent := ChangeEvent.isStable
  changeFeed := ChangeFeed.isStable
  detail := Detail.isStable
  serverMessage := ServerMessage.isStable
  clientMessage := ClientMessage.isStable
  envelope := Envelope.isStable
  config := Config.isStable
  anyFeed _ := ChangeFeed.parse_toJson_iff
  anyServerMessage _ := ServerMessage.parse_toJson_iff
  anyPing _ _ := ClientMessage.parse_toJson

/-- A message whose content is an array, ahead of its tag, which is an object. -/
theorem array_ahead_of_tag_is_stable :
    let text := "\x7b\"data\":[\"tests\",\x7b\"b\":null,\"a\":[]\x7d],"
      ++ "\"event\":\x7b\"changeFeed\":null\x7d\x7d"
    ∃ m, ServerMessage.parse text = .ok m ∧ m.toJson.RealsReadBack ∧
      ServerMessage.parse m.toJson.render = .ok m := by
  intro text
  let row := Json.object [("a", .array []), ("b", .null)]
  have hread : ServerMessage.parse text = .ok (.changeFeed ⟨.tests, row⟩) := by cbv
  have hrow : row.RealsReadBack := Json.realsReadBack_object fun m hm x hx => by
    rcases List.mem_pair.1 hm with rfl | rfl <;> cases hx
    contradiction
  have hreals : (ServerMessage.changeFeed ⟨.tests, row⟩).toJson.RealsReadBack := by
    refine Json.realsReadBack_object fun m hm => ?_
    rcases List.mem_pair.1 hm with rfl | rfl
    · rintro x ⟨⟩
    · refine Json.realsReadBack_object fun m hm => ?_
      rcases List.mem_pair.1 hm with rfl | rfl
      · rintro x ⟨⟩
      · exact hrow
  exact ⟨_, hread, hreals, wire_formats_are_stable.serverMessage text _ hread hreals⟩

/-- A row that is nested as deep as readers allow is read on its own, and not inside of a feed. -/
theorem deepest_row_unreadable :
    let row : Document := [("id", .string "t"), ("x", Recorder.arrays 125)]
    let feed := ChangeFeed.ofEvent .tests (.inserted row)
    row.ReadsBack ∧ ChangeFeed.decoder.parse feed.toJson.render ≠ .ok feed ∧
      ServerMessage.parse (ServerMessage.changeFeed feed).toJson.render ≠ .ok (.changeFeed feed) := by
  intro row feed
  have hrow : row.ReadsBack := by
    refine Document.readsBack_iff.2 ⟨Members.sorted_iff_keys.2 (by decide), ?_⟩
    simp only [row, List.forall_mem_cons]
    exact ⟨Json.rereads_string _ _, Recorder.rereads_arrays 125, nofun⟩
  have hkept := Json.parse_render_iff.1 hrow
  have hdeep : ¬ feed.value.FitsIn 126 := fun h =>
    Recorder.not_fitsIn_arrays 125 (h ("x", _) (List.mem_cons_of_mem _ List.mem_cons_self))
  refine ⟨hrow, fun h => hdeep ?_, fun h => hdeep ?_⟩
  · exact (Json.gives_readAll (ChangeFeed.gives 126).read h).fitsIn
  · exact (Json.gives_readAll (ServerMessage.gives 125) h).fitsIn.mono (by decide)

end TrialBoard
