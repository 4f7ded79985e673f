import Mathlib.Tactic.ByContra
import TrialBoard.Proofs.PushTurn
import TrialBoard.Store.Memory

/-!
# What a push connection says

A connection that is served listens to its client and to its relay at once. `Conversation` is one
such connection with its server, turn by turn of its loop: what was read from the client, what was
received from the relay and what was sent, while the relay's forwarders go on and others use the
store. A connection that is sent every change there is at once is sent what turns of the loop send.

Each text is answered once and each feed is told once, both in their order, and nothing else is
sent. The connection ends when the client closes it or is gone, or when something cannot be sent,
and for no other reason: a relay that has nothing more to tell is no longer listened to, and that is
all.
-/

namespace TrialBoard.Gateway

/-- Whether the items of a list are those of two others, each in its order. -/
inductive Interleaves {α : Type} : List α → List α → List α → Prop
  | nil : Interleaves [] [] []
  | left {a : α} {as bs cs : List α} (h : Interleaves as bs cs) :
      Interleaves (a :: as) bs (a :: cs)
  | right {b : α} {as bs cs : List α} (h : Interleaves as bs cs) :
      Interleaves as (b :: bs) (b :: cs)

namespace Interleaves

variable {α : Type} {as bs cs : List α}

theorem append_left (h : Interleaves as bs cs) (new : List α) :
    Interleaves (as ++ new) bs (cs ++ new) := by
  induction h with
  | nil =>
    induction new with
    | nil => exact .nil
    | cons a new ih => exact .left ih
  | left _ ih => exact .left ih
  | right _ ih => exact .right ih

theorem append_right (h : Interleaves as bs cs) (new : List α) :
    Interleaves as (bs ++ new) (cs ++ new) := by
  induction h with
  | nil =>
    induction new with
    | nil => exact .nil
    | cons b new ih => exact .right ih
  | left _ ih => exact .left ih
  | right _ ih => exact .right ih

end Interleaves

/-- A connection with its server, and what was read, received and sent. -/
structure Conversation (σ τ : Type) where
  server : Server σ
  socket : Socket τ
  /-- Whether the relay is still listened to. -/
  listens : Bool := true
  /-- The texts that were read from the client. -/
  texts : List String := []
  /-- The feeds that were received from the relay. -/
  feeds : List ChangeFeed := []
  /-- The frames that were sent. -/
  sent : List Frame := []
  /-- Whether something could not be sent. -/
  hasFailed : Bool := false

namespace Conversation

/-- What can happen while a connection lasts. -/
inductive Event (σ : Type) where
  | socket (event : SocketEvent)
  /-- Others use the store. -/
  | store (s : σ)

/-- The text that a client sends in an event. -/
def Event.text? {σ : Type} : Event σ → Option String
  | socket (.frame _ frame _) => frame.text?
  | _ => none

variable {σ τ : Type}

/-- Whether a connection is served. -/
def isServing (x : Conversation σ τ) : Bool := x.socket.isServing

/-- Why a connection ends. -/
inductive Ends (x : Conversation σ τ) : Event σ → Prop
  /-- The client closes it. -/
  | closed (now : Nat) (isDelivered : Bool) : Ends x (.socket (.frame now .close isDelivered))
  /-- It fails, or the client is gone. -/
  | gone : Ends x (.socket .gone)
  /-- An answer cannot be sent. -/
  | unanswered (now : Nat) (text : String) : Ends x (.socket (.frame now (.text text) false))
  /-- A feed cannot be sent. -/
  | untold {id : Nat} {relay relay' : Relay τ} {feed : ChangeFeed}
      (serving : x.socket = .serving id relay) (listens : x.listens = true)
      (received : relay.receive = some (feed, relay')) : Ends x (.socket (.feed false))

/-- What is told of a feed. -/
def told (feed : ChangeFeed) : Frame := .text (.changeFeed feed)

/-- What is answered to a text. -/
def answer (text : String) : Frame := .text (reply text)

/-- Whether nothing was read, received or sent between two moments, and the connection lasts as it
did. -/
structure SaysNothing (x x' : Conversation σ τ) : Prop where
  texts : x'.texts = x.texts
  feeds : x'.feeds = x.feeds
  sent : x'.sent = x.sent
  hasFailed : x'.hasFailed = x.hasFailed
  isServing : x'.isServing = x.isServing

variable {x : Conversation σ τ} {id : Nat} {relay : Relay τ}

theorem SaysNothing.refl (x : Conversation σ τ) : x.SaysNothing x := ⟨rfl, rfl, rfl, rfl, rfl⟩

theorem isServing_of_serving (hx : x.socket = .serving id relay) : x.isServing = true := by
  rw [isServing, hx]
  rfl

theorem exists_serving (h : x.isServing = true) : ∃ id relay, x.socket = .serving id relay := by
  cases hx : x.socket with
  | ended =>
    rw [isServing, hx] at h
    cases h
  | serving id relay => exact ⟨id, relay, rfl⟩

/-- A relay that has nothing to tell ends nothing. -/
theorem not_ends_feed (hx : x.socket = .serving id relay)
    (hnone : x.listens = true → relay.receive = none) (isDelivered : Bool) :
    ¬ x.Ends (.socket (.feed isDelivered)) := by
  intro h
  cases h with
  | untold hserving hlistens hreceived =>
    obtain ⟨rfl, rfl⟩ := Socket.serving.inj (hx.symm.trans hserving)
    rw [hnone hlistens] at hreceived
    cases hreceived

/-- A connection with its relay, and the store that goes with it, at some other moment. -/
def holding (x : Conversation σ τ) (id : Nat) (out : Relay τ × σ) : Conversation σ τ :=
  { x with socket := .serving id out.1, server := { x.server with store := out.2 } }

theorem holding_self (hx : x.socket = .serving id relay) :
    x.holding id (relay, x.server.store) = x := by
  unfold holding
  rw [← hx]

/-! ## Its turns -/

variable [DocumentStore σ τ]

/-- A connection that was just taken. -/
def begin (server : Server σ) (now : Nat) : Conversation σ τ :=
  let (socket, sent, server) := server.connect now
  { server, socket, sent }

/-- A connection after a turn of its loop. -/
def after (x : Conversation σ τ) (t : Turn σ τ) : Conversation σ τ where
  server := t.server
  socket := t.socket
  listens := t.listens
  texts := x.texts ++ t.text?.toList
  feeds := x.feeds ++ t.feed?.toList
  sent := x.sent ++ t.sent
  hasFailed := x.hasFailed || t.hasFailed

/-- One event. -/
def step (x : Conversation σ τ) : Event σ → Conversation σ τ
  | .socket event =>
    match x.socket with
    | .ended => x
    | .serving id relay => x.after (x.server.turn id relay x.listens event)
  | .store s => { x with server := { x.server with store := s } }

/-- Events one after the other. -/
def run (x : Conversation σ τ) (events : List (Event σ)) : Conversation σ τ := events.foldl step x

variable {events : List (Event σ)}

theorem step_of_ended (hx : x.socket = .ended) (event : SocketEvent) :
    x.step (.socket event) = x := by
  simp only [step, hx]

theorem step_of_serving (hx : x.socket = .serving id relay) (event : SocketEvent) :
    x.step (.socket event) = x.after (x.server.turn id relay x.listens event) := by
  simp only [step, hx]

/-- A relay that is listened to no more does not count. -/
theorem step_feed_of_deaf (hx : x.socket = .serving id relay) (hdeaf : x.listens = false)
    (isDelivered : Bool) : x.step (.socket (.feed isDelivered)) = x := by
  obtain ⟨server, socket, listens, texts, feeds, sent, hasFailed⟩ := x
  subst hx hdeaf
  simp [step, after, Server.turn]

/-- A connection that has ended says nothing more. -/
theorem saysNothing_step (h : x.isServing = false) (event : Event σ) :
    x.SaysNothing (x.step event) := by
  cases event with
  | store s => exact ⟨rfl, rfl, rfl, rfl, rfl⟩
  | socket event =>
    cases hx : x.socket with
    | ended =>
      rw [step_of_ended hx]
      exact .refl x
    | serving id relay =>
      rw [isServing_of_serving hx] at h
      cases h

/-! ## What is sent, and when it ends -/

/-- Whether each text is answered and each feed is told, in their order, and nothing else is
sent. -/
def Corresponds (x : Conversation σ τ) : Prop :=
  Interleaves (x.texts.map answer) (x.feeds.map told) x.sent

theorem corresponds_step (h : x.hasFailed = false → x.Corresponds) (event : Event σ) :
    (x.step event).hasFailed = false → (x.step event).Corresponds := by
  cases event with
  | store s => exact h
  | socket event =>
    cases hx : x.socket with
    | ended =>
      rw [step_of_ended hx]
      exact h
    | serving id relay =>
      rw [step_of_serving hx]
      intro hfailed
      obtain ⟨hbefore, hnow⟩ := Bool.or_eq_false_iff.1 hfailed
      have hsent := (turns x.server id relay x.listens event).sent hnow
      unfold Corresponds after
      rw [List.map_append, List.map_append, hsent, ← List.append_assoc]
      exact ((h hbefore).append_left _).append_right _

theorem text?_turn {server : Server σ} {listens : Bool} {event : SocketEvent} {t : Turn σ τ}
    (h : Turns server id relay listens event t) :
    t.text? = (Event.socket event : Event σ).text? := by
  cases h with
  | answers now text isDelivered => exact Turn.text?_send _ _ isDelivered
  | tells hears received isDelivered => exact Turn.text?_send _ _ isDelivered
  | closes | leaves => exact Turn.text?_finish _
  | ignores | waits | forwards | rests => rfl

theorem texts_step (h : x.isServing = true) (event : Event σ) :
    (x.step event).texts = x.texts ++ event.text?.toList := by
  cases event with
  | store s => exact (List.append_nil _).symm
  | socket event =>
    obtain ⟨id, relay, hx⟩ := exists_serving h
    rw [step_of_serving hx, after, text?_turn (turns x.server id relay x.listens event)]

/-- A turn ends a connection just when there is a reason. -/
theorem isServing_turn_eq_false_iff (hx : x.socket = .serving id relay) {event : SocketEvent}
    {t : Turn σ τ} (h : Turns x.server id relay x.listens event t) :
    t.socket.isServing = false ↔ x.Ends (.socket event) := by
  cases h with
  | answers now text isDelivered =>
    rw [Turn.isServing_send rfl]
    refine ⟨fun hlost => hlost ▸ .unanswered now text, fun hends => ?_⟩
    cases hends
    rfl
  | @tells feed relay' hears received isDelivered =>
    rw [Turn.isServing_send rfl]
    refine ⟨fun hlost => hlost ▸ .untold hx hears received, fun hends => ?_⟩
    cases hends
    rfl
  | closes now isDelivered => simp [Ends.closed]
  | leaves => simp [Ends.gone]
  | ignores | forwards | rests => exact ⟨nofun, by rintro ⟨⟩⟩
  | waits nothing isDelivered =>
    exact ⟨nofun, fun hends => absurd hends (not_ends_feed hx nothing isDelivered)⟩

theorem isServing_step_eq_false_iff (h : x.isServing = true) (event : Event σ) :
    (x.step event).isServing = false ↔ x.Ends event := by
  cases event with
  | store s => exact ⟨fun hended => absurd (hended.symm.trans h) Bool.false_ne_true, by rintro ⟨⟩⟩
  | socket event =>
    obtain ⟨id, relay, hx⟩ := exists_serving h
    rw [step_of_serving hx]
    exact isServing_turn_eq_false_iff hx (turns x.server id relay x.listens event)

theorem answered_step (h : x.isServing = true) (now : Nat) (text : String) :
    (x.step (.socket (.frame now (.text text) true))).isServing = true ∧
      (x.step (.socket (.frame now (.text text) true))).sent = x.sent ++ [answer text] := by
  obtain ⟨id, relay, hx⟩ := exists_serving h
  rw [step_of_serving hx]
  exact ⟨rfl, rfl⟩

/-! ## The relay that is listened to no more -/

/-- Whether a relay that is listened to no more has nothing to tell, now or later. -/
def ListensLongEnough (x : Conversation σ τ) : Prop :=
  ∀ id relay, x.socket = .serving id relay → x.listens = false → relay.isExhausted = true

theorem act_of_isExhausted (h : relay.isExhausted = true) (s : σ) (c : Collection) :
    relay.act s c = none := by
  have hnone : relay.forwarders = [] := by
    rw [Relay.isExhausted, Bool.and_eq_true] at h
    simpa using h.2
  simp [Relay.act, Relay.forwarder?, hnone]

/-- A turn gives up listening only if there is nothing to hear. -/
theorem listens_turn {server : Server σ} {listens : Bool} {event : SocketEvent} {t : Turn σ τ}
    (h : Turns server id relay listens event t) (hrelay : listens = false → relay.isExhausted = true)
    {id' : Nat} {relay' : Relay τ} (hserving : t.socket = .serving id' relay')
    (hdeaf : t.listens = false) : relay'.isExhausted = true := by
  cases h with
  | answers now text isDelivered =>
    cases isDelivered with
    | true =>
      obtain ⟨rfl, rfl⟩ := Socket.serving.inj hserving
      exact hrelay hdeaf
    | false => cases hserving
  | tells hears received isDelivered =>
    cases isDelivered with
    | true => exact absurd (hdeaf.symm.trans hears) Bool.false_ne_true
    | false => cases hserving
  | closes | leaves => cases hserving
  | ignores | rests =>
    obtain ⟨rfl, rfl⟩ := Socket.serving.inj hserving
    exact hrelay hdeaf
  | waits nothing isDelivered =>
    obtain ⟨rfl, rfl⟩ := Socket.serving.inj hserving
    rcases Bool.and_eq_false_iff.1 hdeaf with hbefore | hexhausted
    · exact hrelay hbefore
    · simpa using hexhausted
  | forwards acted =>
    rw [act_of_isExhausted (hrelay hdeaf)] at acted
    cases acted

theorem ListensLongEnough.step (h : x.ListensLongEnough) (event : Event σ) :
    (x.step event).ListensLongEnough := by
  cases event with
  | store s => exact h
  | socket event =>
    cases hx : x.socket with
    | ended =>
      rw [step_of_ended hx]
      exact h
    | serving id relay =>
      rw [step_of_serving hx]
      intro id' relay' hserving hdeaf
      exact listens_turn (turns x.server id relay x.listens event) (h id relay hx) hserving hdeaf

/-! ## Changes that are sent at once -/

/-- Whether turns of the loop lead from one moment of a connection to another. -/
def Reaches (x x' : Conversation σ τ) : Prop :=
  ∃ events : List SocketEvent, x.run (events.map .socket) = x'

theorem Reaches.refl (x : Conversation σ τ) : x.Reaches x := ⟨[], rfl⟩

theorem Reaches.head {x' : Conversation σ τ} (event : SocketEvent)
    (h : (x.step (.socket event)).Reaches x') : x.Reaches x' := by
  obtain ⟨events, hrun⟩ := h
  exact ⟨event :: events, hrun⟩

theorem Reaches.trans {x' x'' : Conversation σ τ} (h : x.Reaches x') (h' : x'.Reaches x'') :
    x.Reaches x'' := by
  obtain ⟨events, rfl⟩ := h
  obtain ⟨events', rfl⟩ := h'
  refine ⟨events ++ events', ?_⟩
  rw [List.map_append]
  exact List.foldl_append

theorem step_forward (hx : x.socket = .serving id relay) {c : Collection} {out : Relay τ × σ}
    (hact : relay.act x.server.store c = some out) :
    x.step (.socket (.forward c)) = x.holding id out := by
  rw [step_of_serving hx]
  simp [after, holding, Server.turn, hact]

theorem step_feed (hx : x.socket = .serving id relay) (hlistens : x.listens = true)
    {feed : ChangeFeed} {relay' : Relay τ} (hreceive : relay.receive = some (feed, relay')) :
    x.step (.socket (.feed true)) = { x.holding id (relay', x.server.store) with
      feeds := x.feeds ++ [feed], sent := x.sent ++ [told feed] } := by
  rw [step_of_serving hx]
  simp [after, holding, told, Server.turn, Turn.send, hlistens, hreceive]

theorem exists_act_of_actAny {s : σ} {cs : List Collection} {out : Relay τ × σ}
    (h : relay.actAny s cs = some out) : ∃ c, relay.act s c = some out := by
  induction cs with
  | nil => cases h
  | cons c cs ih =>
    unfold Relay.actAny at h
    split at h
    · rename_i hact
      exact ⟨c, hact.trans h⟩
    · exact ih h

/-- What a relay does until it rests, it does in turns of the loop. -/
theorem reaches_settleFor (fuel : Nat) (hx : x.socket = .serving id relay) :
    x.Reaches (x.holding id (relay.settleFor fuel x.server.store)) := by
  induction fuel generalizing x relay with
  | zero => exact (holding_self hx).symm ▸ .refl x
  | succ fuel ih =>
    unfold Relay.settleFor
    split
    · rename_i relay' store hany
      obtain ⟨c, hact⟩ := exists_act_of_actAny hany
      refine .head (.forward c) ?_
      rw [step_forward hx hact]
      exact ih rfl
    · exact (holding_self hx).symm ▸ .refl x

/-- What is received until a relay has nothing more is told in turns of the loop. -/
theorem reaches_receiveUpTo (n : Nat) (hx : x.socket = .serving id relay)
    (hlistens : x.listens = true) :
    let out := relay.receiveUpTo n x.server.store
    x.Reaches { x.holding id out.2 with
      feeds := x.feeds ++ out.1, sent := x.sent ++ out.1.map told } := by
  induction n generalizing x relay with
  | zero =>
    simp only [Relay.receiveUpTo, List.map_nil, List.append_nil]
    exact (holding_self hx).symm ▸ .refl x
  | succ n ih =>
    have hsettled : x.Reaches (x.holding id (relay.settle x.server.store)) :=
      reaches_settleFor _ hx
    refine hsettled.trans ?_
    unfold Relay.receiveUpTo
    cases hreceive : (relay.settle x.server.store).1.receive with
    | none =>
      simp only [hreceive, List.map_nil, List.append_nil]
      exact .refl _
    | some received =>
      obtain ⟨feed, relay'⟩ := received
      have htold := step_feed (x := x.holding id (relay.settle x.server.store)) rfl hlistens hreceive
      have hrest := ih (x := { x.holding id (relay', (relay.settle x.server.store).2) with
        feeds := x.feeds ++ [feed], sent := x.sent ++ [told feed] }) rfl hlistens
      refine .head (.feed true) ?_
      rw [htold]
      simpa [hreceive, holding, List.append_assoc] using hrest

/-- When a connection is sent every change there is, its loop can do the same turn by turn. -/
theorem push_in_turns (hx : x.socket = .serving id relay) (hlistens : x.listens = true) :
    let (socket, frames, server) := x.server.push x.socket
    ∃ feeds, frames = feeds.map told ∧ x.Reaches { x with
      server, socket, feeds := x.feeds ++ feeds, sent := x.sent ++ frames } := by
  have htold := reaches_receiveUpTo (relay.receivable x.server.store) hx hlistens
  rw [hx]
  exact ⟨_, rfl, htold.trans (reaches_settleFor _ rfl)⟩

/-! ## Runs -/

/-- What a connection owes its client in a run. -/
structure Protocol (x : Conversation σ τ) (events : List (Event σ)) : Prop where
  /-- Until something cannot be sent, each text that was read is answered, each feed that was
  received is told, and nothing else is sent. -/
  corresponds : (x.run events).hasFailed = false → (x.run events).Corresponds
  /-- Every text is read while the connection lasts. -/
  reads : (x.run events).isServing = true → (x.run events).texts = events.filterMap Event.text?
  /-- It ends when there is a reason, and not before. -/
  ends : (x.run events).isServing = false ↔ ∃ before event after,
    events = before ++ event :: after ∧ (x.run before).isServing = true ∧
      (x.run before).Ends event
  /-- It says nothing once it has ended. -/
  silent : (x.run events).isServing = false →
    ∀ event, (x.run events).SaysNothing ((x.run events).step event)
  /-- It answers whatever became of its relay. -/
  answers : (x.run events).isServing = true → ∀ now text,
    let next := (x.run events).step (.socket (.frame now (.text text) true))
    next.isServing = true ∧ next.sent = (x.run events).sent ++ [answer text]
  /-- A relay is listened to as long as it can have something to tell, and then does not count. -/
  listens : (x.run events).listens = false → ∀ id relay, (x.run events).socket = .serving id relay →
    relay.isExhausted = true ∧
      ∀ isDelivered, (x.run events).step (.socket (.feed isDelivered)) = x.run events

theorem corresponds_run (h : x.hasFailed = false → x.Corresponds) (events : List (Event σ)) :
    (x.run events).hasFailed = false → (x.run events).Corresponds := by
  induction events generalizing x with
  | nil => exact h
  | cons event events ih => exact ih (corresponds_step h event)

theorem ListensLongEnough.run (h : x.ListensLongEnough) (events : List (Event σ)) :
    (x.run events).ListensLongEnough := by
  induction events generalizing x with
  | nil => exact h
  | cons event events ih => exact ih (h.step event)

theorem isServing_run_of_ended (h : x.isServing = false) (events : List (Event σ)) :
    (x.run events).isServing = false := by
  induction events generalizing x with
  | nil => exact h
  | cons event events ih => exact ih ((saysNothing_step h event).isServing.trans h)

theorem texts_run (h : (x.run events).isServing = true) :
    (x.run events).texts = x.texts ++ events.filterMap Event.text? := by
  induction events generalizing x with
  | nil => exact (List.append_nil _).symm
  | cons event events ih =>
    have hnow : x.isServing = true := by
      by_contra hended
      have hlast := isServing_run_of_ended (Bool.not_eq_true _ ▸ hended) (event :: events)
      exact absurd (hlast.symm.trans h) Bool.false_ne_true
    refine (ih h).trans ?_
    rw [texts_step hnow, List.append_assoc, List.filterMap_cons]
    cases event.text? <;> rfl

theorem isServing_run_eq_false_iff (h : x.isServing = true) :
    (x.run events).isServing = false ↔ ∃ before event after, events = before ++ event :: after ∧
      (x.run before).isServing = true ∧ (x.run before).Ends event := by
  induction events generalizing x with
  | nil => simp [run, h]
  | cons event events ih =>
    have hfirst := isServing_step_eq_false_iff h event
    constructor
    · intro hended
      cases hnext : (x.step event).isServing with
      | false => exact ⟨[], event, events, rfl, h, hfirst.1 hnext⟩
      | true =>
        obtain ⟨before, reason, after, rfl, hbefore⟩ := (ih hnext).1 hended
        exact ⟨event :: before, reason, after, rfl, hbefore⟩
    · rintro ⟨before, reason, after, heq, hbefore, hends⟩
      cases before with
      | nil =>
        obtain ⟨rfl, rfl⟩ := List.cons.inj heq
        exact isServing_run_of_ended (hfirst.2 hends) events
      | cons first before =>
        obtain ⟨rfl, rfl⟩ := List.cons.inj heq
        cases hnext : (x.step event).isServing with
        | false => exact isServing_run_of_ended hnext _
        | true => exact (ih hnext).2 ⟨before, reason, after, rfl, hbefore, hends⟩

/-- A connection that is served follows the protocol from the moment when nothing was said. -/
theorem protocol_of_isServing (h : x.isServing = true) (hsent : x.sent = []) (htexts : x.texts = [])
    (hfeeds : x.feeds = []) (hlistens : x.listens = true) (events : List (Event σ)) :
    x.Protocol events where
  corresponds := by
    refine corresponds_run (fun _ => ?_) events
    rw [Corresponds, hsent, htexts, hfeeds]
    exact .nil
  reads hserving := by rw [texts_run hserving, htexts, List.nil_append]
  ends := isServing_run_eq_false_iff h
  silent hended event := saysNothing_step hended event
  answers hserving now text := answered_step hserving now text
  listens hdeaf id relay hserving := by
    have hstart : x.ListensLongEnough := fun _ _ _ hnot => by simp [hlistens] at hnot
    refine ⟨hstart.run events id relay hserving hdeaf, fun isDelivered => ?_⟩
    exact step_feed_of_deaf hserving hdeaf isDelivered

/-- Nothing is sent to a client whose connection is going to be served. -/
theorem sent_begin {server : Server σ} {now : Nat}
    (h : (server.connect now).1.isServing = true) : (begin server now).sent = [] := by
  change (server.connect now).2.1 = []
  unfold Server.connect at h ⊢
  split at h
  · cases h
  · split at h
    · cases h
    · rename_i hsets
      simp only [hsets]
      rfl

theorem answer_of_ping {text : String} {t : Instant}
    (h : ClientMessage.parse text = .ok (.ping t)) : answer text = .text (.pong t) := by
  rw [answer, reply, h]

theorem answer_of_error {text : String} {e : Json.Error} (h : ClientMessage.parse text = .error e) :
    answer text = .text (.error "PARSE_ERROR" ("Invalid message: " ++ e.message)) := by
  rw [answer, reply, h]
  rfl

/-- A connection that is served follows the protocol, whatever the store, the relay, the client and
the network do and in whatever order. A ping is answered by a pong with its moment, and any other
text by an error. -/
theorem connection_follows_protocol {server : Server σ} {now : Nat}
    (hserved : (server.connect now).1.isServing = true) (events : List (Event σ)) :
    (begin server now).Protocol events ∧
    ∀ text, (∀ t, ClientMessage.parse text = .ok (.ping t) → answer text = .text (.pong t)) ∧
      ∀ e, ClientMessage.parse text = .error e →
        answer text = .text (.error "PARSE_ERROR" ("Invalid message: " ++ e.message)) := by
  have hbegin : (begin server now).isServing = true := hserved
  exact ⟨protocol_of_isServing hbegin (sent_begin hserved) rfl rfl rfl events,
    fun _ => ⟨fun _ => answer_of_ping, fun _ => answer_of_error⟩⟩

/-- A relay that could not attach is heard of once, and both texts are answered. -/
theorem closed_relay_follows_protocol :
    let server : Server MemoryStore :=
      { store := MemoryStore.empty.setUnavailable true, registry := { limit := 1 },
        feedBuffer := 1 }
    let events : List (Event MemoryStore) :=
      [.socket (.frame 1 (.text "x") true), .socket (.feed true), .socket (.frame 2 .other true),
        .socket (.feed true), .socket (.frame 3 (.text "y") true)]
    (server.connect 0).1.isServing = true ∧
    ((begin server 0).Protocol events ∧
      ∀ text, (∀ t, ClientMessage.parse text = .ok (.ping t) → answer text = .text (.pong t)) ∧
        ∀ e, ClientMessage.parse text = .error e →
          answer text = .text (.error "PARSE_ERROR" ("Invalid message: " ++ e.message))) ∧
    ((begin server 0).run events).isServing = true ∧
    ((begin server 0).run events).listens = false ∧
    ((begin server 0).run events).sent = [answer "x", answer "y"] := by
  intro server events
  have hserved : (server.connect 0).1.isServing = true := rfl
  exact ⟨hserved, connection_follows_protocol hserved events, rfl, rfl, rfl⟩

end Conversation

end TrialBoard.Gateway
