import TrialBoard.Gateway.Envelope
import TrialBoard.Gateway.Message
import TrialBoard.Proofs.EncodedText
import TrialBoard.Proofs.InstantText

/-!
# The texts of changes, answers and messages

What is decoded of a change, an answer or a message of the push channel is decoded again from its
own text. A change that the program made itself is decoded as itself as long as its text is nested
no deeper than readers allow.
-/

namespace TrialBoard

open Json (Takes IsStable maxDepth)

/-! ## Collections -/

namespace Collection

theorem takes (c : Collection) (room : Nat) :
    Takes ((Json.Decoder.enumeration variants).read room) (.string c.name) c :=
  Json.Decoder.takes_enumeration (by cases c <;> rfl) room

end Collection

/-! ## Change events -/

namespace ChangeEvent

variable {room : Nat}

/-- Whether a row of an event can be one that was decoded. -/
def IsKeptRow (room : Nat) (row? : Option Json) : Prop := ∀ row ∈ row?, row ≠ .null ∧ row.IsKept room

theorem keeps (room : Nat) : shape.Keeps room fun e =>
    (∀ old? ∈ e.old?, IsKeptRow room old?) ∧ ∀ new? ∈ e.new?, IsKeptRow room new? where
  start := ⟨nofun, nofun⟩
  fields := by
    intro field hfield
    simp only [shape, List.mem_cons, List.not_mem_nil, or_false] at hfield
    rcases hfield with rfl | rfl
    · refine Json.Decoder.gives_map ((Json.Decoder.gives_optional_json room).mono ?_)
      rintro old? hold e ⟨-, hnew⟩
      refine ⟨?_, hnew⟩
      rintro _ ⟨⟩
      exact hold
    · refine Json.Decoder.gives_map ((Json.Decoder.gives_optional_json room).mono ?_)
      rintro new? hnew e ⟨hold, -⟩
      refine ⟨hold, ?_⟩
      rintro _ ⟨⟩
      exact hnew
  others := nofun

theorem isKeptRow_getD {row?? : Option (Option Json)} (h : ∀ row? ∈ row??, IsKeptRow room row?) :
    IsKeptRow room (row??.getD none) := by
  cases row?? with
  | none => exact nofun
  | some row? => exact h row? rfl

theorem gives (room : Nat) : decoder.Gives (room + 1) fun e =>
    IsKeptRow room e.old? ∧ IsKeptRow room e.new? := by
  refine (keeps room).gives fun collected e hcollected hfinish => ?_
  obtain rfl := Except.ok.inj hfinish
  exact ⟨isKeptRow_getD hcollected.1, isKeptRow_getD hcollected.2⟩

theorem IsKeptRow.rereads {row? : Option Json} (h : IsKeptRow room row?)
    (hreals : (row?.getD .null).RealsReadBack) : ∀ row ∈ row?, row ≠ .null ∧ row.Rereads room := by
  rintro row ⟨⟩
  obtain ⟨hne, hkept⟩ := h row rfl
  exact ⟨hne, hkept.rereads hreals⟩

theorem takes {e : ChangeEvent} (hold : IsKeptRow room e.old?) (hnew : IsKeptRow room e.new?)
    (hreals : e.toJson.RealsReadBack) : Takes (decoder.read (room + 1)) e.toJson e := by
  have hold' := hold.rereads (hreals.member List.mem_cons_self)
  have hnew' := hnew.rereads (hreals.member (List.mem_cons_of_mem _ List.mem_cons_self))
  have hcollects : shape.Collects room shape.start e.toJson.membersOf ⟨some e.old?, some e.new?⟩ :=
    .cons rfl rfl (Json.Decoder.takes_map (Json.Decoder.takes_optional_json hold') _)
      (.cons rfl rfl (Json.Decoder.takes_map (Json.Decoder.takes_optional_json hnew') _) .nil)
  exact hcollects.takes rfl

theorem isStable : IsStable decoder.parse toJson :=
  Json.isStable_of_gives (gives 126).read fun _ h hreals => takes h.1 h.2 hreals

end ChangeEvent

/-! ## Change feeds -/

namespace ChangeFeed

variable {room : Nat} {feed : ChangeFeed}

theorem keeps (room : Nat) : shape.Keeps room fun e => ∀ value ∈ e.value?, value.IsKept room where
  start := nofun
  fields := by
    intro field hfield
    simp only [shape, List.mem_cons, List.not_mem_nil, or_false] at hfield
    rcases hfield with rfl | rfl
    · exact Json.Decoder.gives_map ((Json.Decoder.gives_enumeration _ room).mono
        fun _ _ _ hvalue => hvalue)
    · refine Json.Decoder.gives_map ((Json.Decoder.gives_json room).mono ?_)
      rintro value hvalue e - _ ⟨⟩
      exact hvalue
  others := nofun

theorem finish_eq_ok_iff {e : Collected} :
    finish e = .ok feed ↔ e = ⟨some feed.table, some feed.value⟩ := by
  constructor
  · intro h
    obtain ⟨table?, value?⟩ := e
    cases table? with
    | none => cases h
    | some table =>
      cases value? with
      | none => cases h
      | some value =>
        obtain rfl := Except.ok.inj h
        rfl
  · rintro rfl
    rfl

theorem gives (room : Nat) : decoder.Gives (room + 1) fun feed => feed.value.IsKept room := by
  refine (keeps room).gives fun collected feed hcollected hfinish => ?_
  obtain rfl := finish_eq_ok_iff.1 hfinish
  exact hcollected _ rfl

theorem takes (hvalue : feed.value.IsKept room) (hreals : feed.toJson.RealsReadBack) :
    Takes (decoder.read (room + 1)) feed.toJson feed := by
  have hreads := hvalue.rereads (hreals.member (List.mem_cons_of_mem _ List.mem_cons_self))
  have hcollects : shape.Collects room shape.start feed.toJson.membersOf
      ⟨some feed.table, some feed.value⟩ :=
    .cons rfl rfl (Json.Decoder.takes_map (feed.table.takes room) _)
      (.cons rfl rfl (Json.Decoder.takes_map (Json.Decoder.takes_json hreads) _) .nil)
  exact hcollects.takes rfl

theorem isStable : IsStable decoder.parse toJson :=
  Json.isStable_of_gives (gives 126).read fun _ hvalue hreals => takes hvalue hreals

theorem fitsIn_toJson_iff : feed.toJson.FitsIn (room + 1) ↔ feed.value.FitsIn room := by
  have htable : (Json.string feed.table.name).FitsIn room := by cases room <;> trivial
  change (∀ m ∈ feed.toJson.membersOf, _) ↔ _
  simp only [toJson, Json.membersOf, List.forall_mem_cons, htable, true_and]
  simp

/-- The feed of a row is decoded as itself just if there is room for the row inside of it. -/
theorem parse_toJson_iff (hcanonical : feed.value.canonical = feed.value)
    (hreals : feed.toJson.RealsReadBack) :
    decoder.parse feed.toJson.render = .ok feed ↔ feed.toJson.FitsIn maxDepth := by
  have hroom : maxDepth = 126 + 1 := rfl
  rw [hroom, fitsIn_toJson_iff]
  constructor
  · exact fun h => (Json.gives_readAll (gives 126).read h).fitsIn
  · exact fun h => (takes ⟨hcanonical, h⟩ hreals).readAll

end ChangeFeed

/-! ## Answers -/

namespace Gateway.Envelope

variable {room : Nat}

/-- Whether an answer can be one that was decoded. -/
structure IsKept (room : Nat) (e : Envelope Json) : Prop where
  code : e.code ≤ 255
  data : ∀ data ∈ e.data?, data ≠ .null ∧ data.IsKept room

theorem keeps (room : Nat) : shape.Keeps room fun e => (∀ code ∈ e.code?, code ≤ 255) ∧
    ∀ data? ∈ e.data?, ∀ data ∈ data?, data ≠ .null ∧ data.IsKept room where
  start := ⟨nofun, nofun⟩
  fields := by
    intro field hfield
    simp only [shape, List.mem_cons, List.not_mem_nil, or_false] at hfield
    rcases hfield with rfl | rfl | rfl
    · refine Json.Decoder.gives_map ((Json.Decoder.gives_natural "u8" 255 room).mono ?_)
      rintro code hcode e ⟨-, hdata⟩
      refine ⟨?_, hdata⟩
      rintro _ ⟨⟩
      exact hcode
    · refine Json.Decoder.gives_map ((Json.Decoder.gives_optional
        (Json.Decoder.gives_text "a string" room)).mono ?_)
      exact fun _ _ _ he => he
    · refine Json.Decoder.gives_map ((Json.Decoder.gives_optional_json room).mono ?_)
      rintro data? hdata e ⟨hcode, -⟩
      refine ⟨hcode, ?_⟩
      rintro _ ⟨⟩
      exact hdata
  others := nofun

theorem gives (room : Nat) : decoder.Gives (room + 1) (IsKept room) := by
  refine (keeps room).gives fun collected e hcollected hfinish => ?_
  obtain ⟨code?, description?, data?⟩ := collected
  cases code? with
  | none => cases hfinish
  | some code =>
    obtain rfl := Except.ok.inj hfinish
    refine ⟨hcollected.1 code rfl, ?_⟩
    cases data? with
    | none => exact nofun
    | some data? => exact hcollected.2 data? rfl

theorem takes {e : Envelope Json} (h : e.IsKept room) (hreals : (e.toJson id).RealsReadBack) :
    Takes (decoder.read (room + 1)) (e.toJson id) e := by
  obtain ⟨code, description?, data?⟩ := e
  have hcode : Takes ((Json.Decoder.natural "u8" 255).read room) (.ofNat code) code :=
    Json.Decoder.takes_natural "u8" h.code (by have := h.code; omega) room
  have hdescription : ∀ s ∈ description?, Takes ((Json.Decoder.optional (.text "a string")).read room)
      (.string s) (some s) := fun s _ =>
    Json.Decoder.takes_optional nofun (Json.Decoder.takes_text "a string" s room)
  have hdata : ∀ data ∈ data?, Takes ((Json.Decoder.optional .json).read room) data (some data) := by
    rintro data ⟨⟩
    obtain ⟨hne, hkept⟩ := h.data data rfl
    refine Json.Decoder.takes_optional hne (Json.Decoder.takes_json (hkept.rereads ?_))
    exact hreals.member (m := ("data", data)) (by simp)
  have hfirst := Json.Decoder.takes_map hcode fun n (e : Collected) => { e with code? := some n }
  -- What is absent is left out, so there is one case for each set of members.
  cases description? with
  | none =>
    cases data? with
    | none =>
      have hcollects : shape.Collects room shape.start [("responseCode", .ofNat code)] _ :=
        .cons rfl rfl hfirst .nil
      exact hcollects.takes rfl
    | some data =>
      have hcollects : shape.Collects room shape.start
          [("responseCode", .ofNat code), ("data", data)] _ :=
        .cons rfl rfl hfirst (.cons rfl rfl (Json.Decoder.takes_map (hdata data rfl) _) .nil)
      exact hcollects.takes rfl
  | some s =>
    have hsecond := Json.Decoder.takes_map (hdescription s rfl)
      fun s (e : Collected) => { e with description? := some s }
    cases data? with
    | none =>
      have hcollects : shape.Collects room shape.start
          [("responseCode", .ofNat code), ("responseDesc", .string s)] _ :=
        .cons rfl rfl hfirst (.cons rfl rfl hsecond .nil)
      exact hcollects.takes rfl
    | some data =>
      have hcollects : shape.Collects room shape.start
          [("responseCode", .ofNat code), ("responseDesc", .string s), ("data", data)] _ :=
        .cons rfl rfl hfirst (.cons rfl rfl hsecond
          (.cons rfl rfl (Json.Decoder.takes_map (hdata data rfl) _) .nil))
      exact hcollects.takes rfl

theorem isStable : IsStable decoder.parse (toJson id) :=
  Json.isStable_of_gives (gives 126).read fun _ h hreals => takes h hreals

end Gateway.Envelope

/-! ## Messages -/

namespace Gateway

variable {room : Nat}

theorem gives_instant (room : Nat) : instant.Gives room Instant.IsReadable := by
  refine Json.Decoder.gives_checkedText _ room fun s t ht => ?_
  split at ht
  · obtain rfl := Except.ok.inj ht
    exact Instant.isReadable_of_parse ‹_›
  · cases ht

theorem takes_instant {t : Instant} (h : t.IsReadable) (room : Nat) :
    Takes (instant.read room) (.string t.text) t := by
  refine Json.Decoder.takes_checkedText _ ?_ room
  rw [Instant.parse_text h]

theorem gives_stamp (expected : String) (room : Nat) :
    (stampShape expected).decoder.Gives (room + 1) Instant.IsReadable := by
  have hkeeps : (stampShape expected).Keeps room fun t? => ∀ t ∈ t?, t.IsReadable := by
    refine ⟨nofun, fun field hfield => ?_, nofun⟩
    obtain rfl := List.mem_singleton.1 hfield
    refine Json.Decoder.gives_map ((gives_instant room).mono ?_)
    rintro t ht - - _ ⟨⟩
    exact ht
  refine hkeeps.gives fun t? t ht? hfinish => ?_
  cases t? with
  | none => cases hfinish
  | some t =>
    obtain rfl := Except.ok.inj hfinish
    exact ht? t rfl

theorem takes_stamp (expected : String) {t : Instant} (h : t.IsReadable) (room : Nat) :
    Takes ((stampShape expected).decoder.read (room + 1)) (stamped t) t := by
  have hcollects : (stampShape expected).Collects room none
      [("timestamp", .string t.text)] (some t) :=
    .cons rfl rfl (Json.Decoder.takes_map (takes_instant h room) _) .nil
  exact hcollects.takes rfl

theorem takes_error (code message : String) (room : Nat) :
    Takes (errorShape.decoder.read (room + 1))
      (.object [("code", .string code), ("message", .string message)])
      (.error code message) := by
  have hcollects : errorShape.Collects room errorShape.start
      [("code", .string code), ("message", .string message)] ⟨some code, some message⟩ :=
    .cons rfl rfl (Json.Decoder.takes_map (Json.Decoder.takes_text _ code room) _)
      (.cons rfl rfl (Json.Decoder.takes_map (Json.Decoder.takes_text _ message room) _) .nil)
  exact hcollects.takes rfl

namespace ServerMessage

/-- Whether a message can be one that was decoded. -/
def IsKept (room : Nat) : ServerMessage → Prop
  | changeFeed feed => feed.value.IsKept room
  | pong t => t.IsReadable
  | error _ _ => True

theorem gives_error (room : Nat) : errorShape.decoder.Gives (room + 1) (IsKept room) := by
  have hkeeps : errorShape.Keeps room fun _ => True := by
    refine ⟨trivial, fun field hfield => ?_, nofun⟩
    simp only [errorShape, List.mem_cons, List.not_mem_nil, or_false] at hfield
    rcases hfield with rfl | rfl <;>
      exact Json.Decoder.gives_map ((Json.Decoder.gives_text _ room).mono fun _ _ _ _ => trivial)
  refine hkeeps.gives fun collected m _ hfinish => ?_
  obtain ⟨code?, message?⟩ := collected
  cases code? with
  | none => cases hfinish
  | some code =>
    cases message? with
    | none => cases hfinish
    | some message =>
      obtain rfl := Except.ok.inj hfinish
      trivial

theorem gives (room : Nat) (cs : List Char) : (form.read (room + 2) cs).Gives (IsKept room) := by
  refine Json.Tagged.gives_read (fun m hm => ?_) cs
  simp only [form, List.mem_cons, List.not_mem_nil, or_false] at hm
  rcases hm with rfl | rfl | rfl
  · exact Json.Decoder.gives_map (ChangeFeed.gives room)
  · exact Json.Decoder.gives_map (gives_stamp _ room)
  · exact gives_error room

theorem takes {m : ServerMessage} (h : m.IsKept room) (hreals : m.toJson.RealsReadBack) :
    Takes (form.read (room + 2)) m.toJson m := by
  have htagged : form.tag ≠ form.content := by decide
  cases m with
  | changeFeed feed =>
    have hfeed : feed.toJson.RealsReadBack :=
      hreals.member (List.mem_cons_of_mem _ List.mem_cons_self)
    have hcontent := Json.Decoder.takes_map (ChangeFeed.takes h hfeed) changeFeed
    exact Json.Tagged.takes_read htagged (s := "changeFeed") rfl hcontent
  | pong t =>
    have hcontent := Json.Decoder.takes_map
      (takes_stamp "struct variant ServerMessage::Pong" h room) pong
    exact Json.Tagged.takes_read htagged (s := "pong") rfl hcontent
  | error code message =>
    exact Json.Tagged.takes_read htagged (s := "error") rfl (takes_error code message room)

theorem isStable : IsStable parse toJson :=
  Json.isStable_of_gives (gives 125) fun _ h hreals => takes h hreals

/-- Whether the server can make a message: of any row, of a moment that was read, of any error. -/
def IsMade : ServerMessage → Prop
  | changeFeed feed => feed.value.canonical = feed.value
  | pong t => ∃ s, Instant.parse s = .ok t
  | error _ _ => True

theorem fitsIn_tagged_iff {event : String} {content : Json} :
    (tagged event content).FitsIn (room + 1) ↔ content.FitsIn room := by
  have hevent : (Json.string event).FitsIn room := by cases room <;> trivial
  change (∀ m ∈ [("event", Json.string event), ("data", content)], _) ↔ _
  simp only [List.forall_mem_cons, hevent, true_and]
  simp

/-- What the server makes is decoded as itself just if it is not nested too deep. -/
theorem parse_toJson_iff {m : ServerMessage} (hmade : m.IsMade) (hreals : m.toJson.RealsReadBack) :
    parse m.toJson.render = .ok m ↔ m.toJson.FitsIn maxDepth := by
  have hkept : m.toJson.FitsIn maxDepth ↔ m.IsKept 125 := by
    have hroom : maxDepth = 125 + 1 + 1 := rfl
    rw [hroom]
    cases m with
    | changeFeed feed =>
      rw [toJson, fitsIn_tagged_iff, ChangeFeed.fitsIn_toJson_iff]
      exact ⟨fun h => ⟨hmade, h⟩, fun h => h.fitsIn⟩
    | pong t =>
      obtain ⟨s, hs⟩ := hmade
      refine iff_of_true ?_ (Instant.isReadable_of_parse hs)
      exact fitsIn_tagged_iff.2 (List.forall_mem_singleton.2 trivial)
    | error code message =>
      refine iff_of_true (fitsIn_tagged_iff.2 ?_) trivial
      exact List.forall_mem_cons.2 ⟨trivial, List.forall_mem_singleton.2 trivial⟩
  rw [hkept]
  exact ⟨fun h => Json.gives_readAll (gives 125) h, fun h => (takes h hreals).readAll⟩

end ServerMessage

namespace ClientMessage

/-- Whether a message can be one that was decoded. -/
def IsKept : ClientMessage → Prop
  | ping t => t.IsReadable

theorem gives (room : Nat) (cs : List Char) : (form.read (room + 2) cs).Gives IsKept := by
  refine Json.Tagged.gives_read (fun m hm => ?_) cs
  obtain rfl := List.mem_singleton.1 hm
  exact Json.Decoder.gives_map (gives_stamp _ room)

theorem takes {m : ClientMessage} (h : m.IsKept) (room : Nat) :
    Takes (form.read (room + 2)) m.toJson m := by
  have htagged : form.tag ≠ form.content := by decide
  cases m with
  | ping t =>
    have hcontent := Json.Decoder.takes_map
      (takes_stamp "struct variant ClientMessage::Ping" h room) ping
    exact Json.Tagged.takes_read htagged (s := "ping") rfl hcontent

theorem isStable : IsStable parse toJson :=
  Json.isStable_of_gives (gives 125) fun _ h _ => takes h 125

/-- A ping with a moment that was read is decoded as itself. -/
theorem parse_toJson {s : String} {t : Instant} (h : Instant.parse s = .ok t) :
    parse (ping t).toJson.render = .ok (ping t) :=
  (takes (Instant.isReadable_of_parse h) 125).readAll

end ClientMessage

end Gateway

end TrialBoard
