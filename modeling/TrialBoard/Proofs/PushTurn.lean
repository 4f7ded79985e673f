import TrialBoard.Gateway.Push

/-!
# A turn of a connection

`Turns` has one case for each thing that a turn of the loop of a connection can come to. Whichever
it is, the connection is served on under its number and keeps its place, or it ends and its place is
given back; and what was sent is the answer to what was read and the feed that was received.
-/

namespace TrialBoard.Gateway

variable {σ τ : Type}

/-! ## Ending and sending -/

/-- What becomes of the place of a connection in a turn. -/
inductive Turn.Place (t : Turn σ τ) (id : Nat) (r : Registry) : Prop
  /-- The connection is served on, and its place stays taken. -/
  | kept {relay : Relay τ} (socket : t.socket = .serving id relay) (registry : t.server.registry = r)
  /-- It has ended, and its place is free. -/
  | freed (socket : t.socket = .ended) (registry : t.server.registry = (r.remove id).2)

variable [DocumentStore σ τ]

namespace Turn

variable {t : Turn σ τ} {id : Nat} {relay : Relay τ}

theorem place_finish (h : t.socket = .serving id relay) :
    t.finish.Place id t.server.registry := by
  unfold finish
  rw [h]
  exact .freed rfl rfl

theorem place_send (h : t.socket = .serving id relay) (frame : Frame) (isDelivered : Bool) :
    (t.send [frame] isDelivered).Place id t.server.registry := by
  cases isDelivered with
  | true => exact .kept h rfl
  | false => exact place_finish (t := { t with hasFailed := true }) h

@[simp] theorem isServing_finish (t : Turn σ τ) : t.finish.socket.isServing = false := by
  unfold finish Server.disconnect
  cases t.socket <;> rfl

theorem isServing_send (h : t.socket = .serving id relay) (frame : Frame) (isDelivered : Bool) :
    (t.send [frame] isDelivered).socket.isServing = isDelivered := by
  cases isDelivered with
  | true => exact congrArg Socket.isServing h
  | false => exact isServing_finish _

theorem text?_finish (t : Turn σ τ) : t.finish.text? = t.text? := rfl

theorem text?_send (t : Turn σ τ) (frame : Frame) (isDelivered : Bool) :
    (t.send [frame] isDelivered).text? = t.text? := by
  cases isDelivered <;> rfl

theorem feedBuffer_finish (t : Turn σ τ) : t.finish.server.feedBuffer = t.server.feedBuffer := by
  unfold finish Server.disconnect
  cases t.socket <;> rfl

theorem feedBuffer_send (t : Turn σ τ) (frame : Frame) (isDelivered : Bool) :
    (t.send [frame] isDelivered).server.feedBuffer = t.server.feedBuffer := by
  cases isDelivered with
  | true => rfl
  | false => exact feedBuffer_finish { t with hasFailed := true }

end Turn

/-! ## What a turn can come to -/

section Cases

variable (server : Server σ) (id : Nat) (relay : Relay τ) (listens : Bool)

/-- All that a turn can come to. -/
inductive Turns : SocketEvent → Turn σ τ → Prop
  /-- A text counts as activity, and is answered. -/
  | answers (now : Nat) (text : String) (isDelivered : Bool) :
      Turns (.frame now (.text text) isDelivered)
        (Turn.send
          { server := { server with registry := server.registry.touch id now },
            socket := .serving id relay, listens, text? := some text }
          [.text (reply text)] isDelivered)
  | closes (now : Nat) (isDelivered : Bool) :
      Turns (.frame now .close isDelivered)
        (Turn.finish { server, socket := .serving id relay, listens })
  | ignores (now : Nat) (isDelivered : Bool) :
      Turns (.frame now .other isDelivered) { server, socket := .serving id relay, listens }
  | leaves : Turns .gone (Turn.finish { server, socket := .serving id relay, listens })
  /-- A feed is told. -/
  | tells {feed : ChangeFeed} {relay' : Relay τ} (hears : listens = true)
      (received : relay.receive = some (feed, relay')) (isDelivered : Bool) :
      Turns (.feed isDelivered)
        (Turn.send { server, socket := .serving id relay', listens, feed? := some feed }
          [.text (.changeFeed feed)] isDelivered)
  /-- There is nothing to tell. A relay that will never have anything is listened to no more. -/
  | waits (nothing : listens = true → relay.receive = none) (isDelivered : Bool) :
      Turns (.feed isDelivered)
        { server, socket := .serving id relay, listens := listens && !relay.isExhausted }
  | forwards {c : Collection} {relay' : Relay τ} {store : σ}
      (acted : relay.act server.store c = some (relay', store)) :
      Turns (.forward c)
        { server := { server with store }, socket := .serving id relay', listens }
  | rests {c : Collection} (stuck : relay.act server.store c = none) :
      Turns (.forward c) { server, socket := .serving id relay, listens }

theorem turns (event : SocketEvent) :
    Turns server id relay listens event (server.turn id relay listens event) := by
  cases event with
  | frame now frame isDelivered =>
    cases frame with
    | text text => exact .answers now text isDelivered
    | other => exact .ignores now isDelivered
    | close => exact .closes now isDelivered
  | gone => exact .leaves
  | feed isDelivered =>
    cases listens with
    | false => exact .waits (fun h => absurd h Bool.false_ne_true) isDelivered
    | true =>
      simp only [Server.turn, if_true]
      cases hreceive : relay.receive with
      | some received => exact .tells rfl hreceive isDelivered
      | none => exact .waits (fun _ => hreceive) isDelivered
  | forward c =>
    simp only [Server.turn]
    cases hact : relay.act server.store c with
    | some acted => exact .forwards hact
    | none => exact .rests hact

end Cases

section Outcome

variable {server : Server σ} {id : Nat} {relay : Relay τ} {listens : Bool} {event : SocketEvent}
  {t : Turn σ τ}

/-- A connection keeps its place in a turn or gives it back. Nothing else happens to the registry but
that activity is noted. -/
theorem Turns.place (h : Turns server id relay listens event t) :
    ∃ r, (r = server.registry ∨ ∃ now, r = server.registry.touch id now) ∧ t.Place id r := by
  cases h with
  | answers now text isDelivered => exact ⟨_, .inr ⟨now, rfl⟩, Turn.place_send rfl _ isDelivered⟩
  | tells hears received isDelivered => exact ⟨_, .inl rfl, Turn.place_send rfl _ isDelivered⟩
  | closes | leaves => exact ⟨_, .inl rfl, Turn.place_finish rfl⟩
  | ignores | waits | forwards | rests => exact ⟨_, .inl rfl, .kept rfl rfl⟩

/-- No turn changes the room for changes. -/
theorem Turns.feedBuffer (h : Turns server id relay listens event t) :
    t.server.feedBuffer = server.feedBuffer := by
  cases h with
  | answers | tells => exact Turn.feedBuffer_send _ _ _
  | closes | leaves => exact Turn.feedBuffer_finish _
  | ignores | waits | forwards | rests => rfl

/-- What is sent is the answer to what was read and the feed that was received. -/
theorem Turns.sent (h : Turns server id relay listens event t) (hfailed : t.hasFailed = false) :
    t.sent = t.text?.toList.map (fun text => .text (reply text)) ++
      t.feed?.toList.map (fun feed => .text (.changeFeed feed)) := by
  cases h with
  | answers now text isDelivered | tells hears received isDelivered =>
    cases isDelivered with
    | true => rfl
    | false => cases hfailed
  | closes | leaves | ignores | waits | forwards | rests => rfl

end Outcome

end TrialBoard.Gateway
