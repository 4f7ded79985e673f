import Mathlib.Data.List.Perm.Basic
import Mathlib.Data.List.Nodup
import TrialBoard.Proofs.PushTurn
import TrialBoard.Store.Broken
import TrialBoard.Store.Memory

/-!
# The places of push connections

A `Hub` is a server with all the connections that were ever made to it, at any moment of its run.
Each takes turns of its loop, and in between the store may come to be any other one.

A place that is taken is that of a connection which is being served, or of one that was gone before
it was served. The places of the latter are never free again: a connection is registered before its
relay is set up, and only a connection that is served gets to the end where its place is given back.
So the places are right, and as many connections are taken as there is room for, just as long as no
set-up has broken down.
-/

namespace TrialBoard.Gateway

/-! ## The registry -/

namespace Registry

/-- The numbers of the connections that are registered. -/
def ids (r : Registry) : List Nat := r.connections.map (·.1)

variable {r : Registry} {id now : Nat}

theorem length_ids (r : Registry) : r.ids.length = r.count := List.length_map _

/-- Whether every connection has a number of its own that was given before, and there are no more
than there may be. -/
structure IsSound (r : Registry) : Prop where
  nodup : r.ids.Nodup
  given : ∀ id ∈ r.ids, id < r.nextId
  within : r.count ≤ r.limit

theorem add_of_full (h : r.limit ≤ r.count) (now : Nat) : r.add now = (none, r) := if_pos h

theorem add_of_room (h : r.count < r.limit) (now : Nat) :
    r.add now = (some r.nextId,
      { r with connections := r.connections ++ [(r.nextId, ⟨now, now⟩)], nextId := r.nextId + 1 }) :=
  if_neg (Nat.not_le.2 h)

theorem limit_add (r : Registry) (now : Nat) : (r.add now).2.limit = r.limit := by
  unfold add
  split <;> rfl

theorem count_add (r : Registry) (now : Nat) :
    (r.add now).2.count = if r.count < r.limit then r.count + 1 else r.count := by
  unfold add
  by_cases h : r.limit ≤ r.count
  · rw [if_pos h, if_neg (Nat.not_lt.2 h)]
  · rw [if_neg h, if_pos (Nat.not_le.1 h)]
    exact List.length_append

theorem ids_add_of_room (h : r.count < r.limit) (now : Nat) :
    (r.add now).2.ids = r.ids ++ [r.nextId] := by
  rw [add_of_room h]
  exact List.map_append

/-- A registry takes a connection under a new number. -/
theorem IsSound.add (h : r.IsSound) (now : Nat) : (r.add now).2.IsSound := by
  by_cases hroom : r.count < r.limit
  · have hfresh : r.nextId ∉ r.ids := fun hmem => Nat.lt_irrefl _ (h.given _ hmem)
    refine ⟨?_, fun id hid => ?_, ?_⟩
    · rw [ids_add_of_room hroom]
      exact List.nodup_append.2 ⟨h.nodup, List.nodup_singleton _,
        fun a ha b hb => (List.mem_singleton.1 hb) ▸ ne_of_mem_of_not_mem ha hfresh⟩
    · rw [ids_add_of_room hroom] at hid
      have hnext : (r.add now).2.nextId = r.nextId + 1 := by rw [add_of_room hroom]
      rw [hnext]
      rcases List.mem_append.1 hid with hold | hnew
      · exact Nat.lt_succ_of_lt (h.given id hold)
      · exact List.mem_singleton.1 hnew ▸ Nat.lt_succ_self _
    · rw [count_add, limit_add, if_pos hroom]
      exact hroom
  · rw [add_of_full (Nat.not_lt.1 hroom)]
    exact h

/-- A connection that goes gives its number back. -/
theorem ids_remove (h : r.IsSound) (id : Nat) : (r.remove id).2.ids = r.ids.erase id := by
  rw [h.nodup.erase_eq_filter, ids, ids, List.filter_map]
  rfl

theorem IsSound.remove (h : r.IsSound) (id : Nat) : (r.remove id).2.IsSound := by
  refine ⟨?_, fun other hother => ?_, ?_⟩
  · rw [ids_remove h]
    exact h.nodup.erase id
  · rw [ids_remove h] at hother
    exact h.given other (List.mem_of_mem_erase hother)
  · rw [← length_ids, ids_remove h]
    exact Nat.le_trans List.length_erase_le (r.length_ids ▸ h.within)

theorem ids_touch (r : Registry) (id now : Nat) : (r.touch id now).ids = r.ids := by
  rw [ids, touch, List.map_map]
  rfl

theorem IsSound.touch (h : r.IsSound) (id now : Nat) : (r.touch id now).IsSound := by
  have hids := r.ids_touch id now
  have hcount : (r.touch id now).count = r.count := by rw [← length_ids, hids, length_ids]
  exact ⟨hids ▸ h.nodup, hids ▸ h.given, hcount ▸ h.within⟩

end Registry

/-! ## Runs -/

/-- A server with its connections. -/
structure Hub (σ τ : Type) where
  server : Server σ
  /-- All connections, the ended ones too, in the order in which they came. -/
  sockets : List (Socket τ) := []
  /-- The numbers of the connections that were registered and gone before they were served. -/
  lost : List Nat := []

/-- What can happen next. -/
inductive HubEvent (σ : Type) where
  /-- A client connects. -/
  | connect (now : Nat)
  /-- Something happens to the connection of a number. -/
  | socket (n : Nat) (event : SocketEvent)
  /-- Others use the store. -/
  | store (s : σ)

/-- The number under which a connection that is being served is registered. -/
def Socket.id? {τ : Type} : Socket τ → Option Nat
  | serving id _ => some id
  | ended => none

namespace Server

variable {σ τ : Type} [DocumentStore σ τ]

/-- Whether a connection can be set up once it is registered. -/
def setsUp (server : Server σ) : Bool :=
  Channel.isCapacity server.feedBuffer && !server.storeCrashes

/-- Whether a connection would be registered. -/
def takes (server : Server σ) (now : Nat) : Bool := (server.registry.add now).1.isSome

variable (server : Server σ) (now : Nat)

theorem registry_connect : (server.connect now).2.2.registry = (server.registry.add now).2 := by
  unfold connect
  split
  · rename_i registry hadd
    rw [hadd]
  · rename_i id registry hadd
    rw [hadd]
    split <;> rfl

/-- A connection is served if it is registered and can be set up. -/
theorem id?_connect : (server.connect now).1.id? =
    if server.setsUp then (server.registry.add now).1 else none := by
  unfold connect setsUp
  split
  · rename_i registry hadd
    rw [hadd, ite_self]
    rfl
  · rename_i id registry hadd
    rw [hadd]
    cases Channel.isCapacity server.feedBuffer <;> cases server.storeCrashes <;> rfl

end Server

namespace Hub

variable {σ τ : Type}

/-- A server that was just started. -/
def start (store : σ) (settings : ServerSettings) : Hub σ τ :=
  { server := .start store settings none 0 }

/-- The numbers of the connections that are being served. -/
def servingIds (hub : Hub σ τ) : List Nat := hub.sockets.filterMap Socket.id?

/-- How many connections are being served. -/
def serving (hub : Hub σ τ) : Nat := hub.servingIds.length

/-- Puts a connection back in its place. -/
def put (hub : Hub σ τ) (n : Nat) (socket : Socket τ) (server : Server σ) : Hub σ τ :=
  { hub with server, sockets := hub.sockets.set n socket }

variable [DocumentStore σ τ]

/-- One turn of the loop of a connection, if it is being served. A hub need not know whether the relay
is still listened to: one that is not has nothing to tell. -/
def stepAt (hub : Hub σ τ) (n : Nat) (socket : Socket τ) (event : SocketEvent) : Hub σ τ :=
  match socket with
  | .ended => hub
  | .serving id relay =>
    let t := hub.server.turn id relay true event
    hub.put n t.socket t.server

/-- The number of a connection that is registered and cannot be set up. -/
def losing? (hub : Hub σ τ) (now : Nat) : Option Nat :=
  if hub.server.setsUp then none else (hub.server.registry.add now).1

/-- What happens next. -/
def step (hub : Hub σ τ) : HubEvent σ → Hub σ τ
  | .connect now =>
    let (socket, _, server) := hub.server.connect now
    { server, sockets := hub.sockets ++ [socket], lost := hub.lost ++ (hub.losing? now).toList }
  | .socket n event =>
    match hub.sockets[n]? with
    | none => hub
    | some socket => hub.stepAt n socket event
  | .store s => { hub with server := { hub.server with store := s } }

/-- All that happens, one after the other. -/
def run (hub : Hub σ τ) (events : List (HubEvent σ)) : Hub σ τ := events.foldl step hub

/-- How many of the clients that connect next, one after the other, are registered. -/
def admitted (hub : Hub σ τ) : List Nat → Nat
  | [] => 0
  | now :: moments =>
    (if hub.server.takes now then 1 else 0) + (hub.step (.connect now)).admitted moments

/-- Whether the places that are taken are just those of the connections being served, and all the
others can be had. -/
structure FreesSlots (limit : Nat) (hub : Hub σ τ) : Prop where
  counts : hub.server.registry.count = hub.serving
  admits : ∀ moments, hub.admitted moments = min moments.length (limit - hub.serving)

end Hub

/-! ## What a run keeps -/

namespace Hub

/-- Whether the places that are taken are those of the connections that are being served and of
those that were lost. -/
structure Consistent {σ τ : Type} (limit : Nat) (hub : Hub σ τ) : Prop where
  sound : hub.server.registry.IsSound
  limited : hub.server.registry.limit = limit
  taken : hub.server.registry.ids.Perm (hub.servingIds ++ hub.lost)

section Places

variable {σ τ : Type} {limit n : Nat} {hub : Hub σ τ} {socket socket' : Socket τ}
  {server : Server σ}

/-- The connections around one, which stay when another is put in its place. -/
theorem exists_around (h : hub.sockets[n]? = some socket) (socket' : Socket τ) :
    ∃ before after, hub.sockets = before ++ socket :: after ∧
      hub.sockets.set n socket' = before ++ socket' :: after := by
  obtain ⟨hn, rfl⟩ := List.getElem?_eq_some_iff.1 h
  obtain ⟨before, after, hsockets, -, hset⟩ := List.exists_of_set hn
  exact ⟨before, after, hsockets, hset⟩

theorem servingIds_put (h : hub.sockets[n]? = some socket) (hid : socket'.id? = socket.id?)
    (server : Server σ) : (hub.put n socket' server).servingIds = hub.servingIds := by
  obtain ⟨before, after, hsockets, hset⟩ := exists_around h socket'
  unfold servingIds put
  rw [hset, hsockets, List.filterMap_append, List.filterMap_append, List.filterMap_cons,
    List.filterMap_cons, hid]

/-- The other connections are served on when one ends. -/
theorem servingIds_put_ended {id : Nat} {relay : Relay τ}
    (h : hub.sockets[n]? = some (.serving id relay)) (server : Server σ) :
    hub.servingIds.Perm (id :: (hub.put n .ended server).servingIds) := by
  obtain ⟨before, after, hsockets, hset⟩ := exists_around h .ended
  unfold servingIds put
  rw [hset, hsockets, List.filterMap_append, List.filterMap_append]
  exact List.perm_middle

theorem Consistent.count_eq (h : hub.Consistent limit) :
    hub.server.registry.count = hub.serving + hub.lost.length := by
  rw [← Registry.length_ids, h.taken.length_eq, List.length_append]
  rfl

theorem consistent_start (store : σ) (settings : ServerSettings) :
    Consistent settings.maxConnections (start store settings : Hub σ τ) :=
  ⟨⟨List.nodup_nil, fun _ hid => absurd hid List.not_mem_nil, Nat.zero_le _⟩, rfl, .refl _⟩

/-- A connection that is served on keeps its place, and one that ends gives it back. -/
theorem Consistent.put {id : Nat} {relay : Relay τ} {t : Turn σ τ} {r : Registry}
    (h : hub.Consistent limit) (hsocket : hub.sockets[n]? = some (.serving id relay))
    (hplace : t.Place id r) (hsound : r.IsSound) (hlimited : r.limit = limit)
    (hids : r.ids = hub.server.registry.ids) : (hub.put n t.socket t.server).Consistent limit := by
  cases hplace with
  | kept hturn hregistry =>
    refine ⟨hregistry ▸ hsound, hregistry ▸ hlimited, ?_⟩
    rw [servingIds_put hsocket (by rw [hturn]; rfl)]
    change t.server.registry.ids.Perm _
    rw [hregistry, hids]
    exact h.taken
  | freed hturn hregistry =>
    refine ⟨hregistry ▸ hsound.remove id, hregistry ▸ hlimited, ?_⟩
    have htaken := h.taken.trans ((servingIds_put_ended hsocket t.server).append_right hub.lost)
    have hrest := htaken.erase id
    rw [List.cons_append, List.erase_cons_head, ← hids, ← Registry.ids_remove hsound] at hrest
    rw [hturn]
    change t.server.registry.ids.Perm _
    rw [hregistry]
    exact hrest

end Places

variable {σ τ : Type} [DocumentStore σ τ] {limit n : Nat} {hub : Hub σ τ} {socket : Socket τ}

/-- A turn of the loop of a connection keeps its place or gives it back. -/
theorem consistent_stepAt (h : hub.Consistent limit) (hsocket : hub.sockets[n]? = some socket)
    (event : SocketEvent) : (hub.stepAt n socket event).Consistent limit := by
  cases socket with
  | ended => exact h
  | serving id relay =>
    obtain ⟨r, hr, hplace⟩ := (turns hub.server id relay true event).place
    rcases hr with rfl | ⟨now, rfl⟩
    · exact h.put hsocket hplace h.sound h.limited rfl
    · exact h.put hsocket hplace (h.sound.touch id now) h.limited (Registry.ids_touch _ id now)

/-- A connection that is registered is being served, or lost. -/
theorem consistent_connect (h : hub.Consistent limit) (now : Nat) :
    (hub.step (.connect now)).Consistent limit := by
  have hregistry : (hub.step (.connect now)).server.registry = (hub.server.registry.add now).2 :=
    hub.server.registry_connect now
  have hserving : (hub.step (.connect now)).servingIds = hub.servingIds ++
      (if hub.server.setsUp then (hub.server.registry.add now).1 else none).toList := by
    rw [← Server.id?_connect]
    unfold servingIds step
    rw [List.filterMap_append]
    cases hid : (hub.server.connect now).1.id? <;> simp [hid]
  have hlost : (hub.step (.connect now)).lost = hub.lost ++
      (if hub.server.setsUp then none else (hub.server.registry.add now).1).toList := rfl
  refine ⟨hregistry ▸ h.sound.add now, ?_, ?_⟩
  · rw [hregistry, Registry.limit_add, h.limited]
  · rw [hregistry, hserving, hlost]
    by_cases hroom : hub.server.registry.count < hub.server.registry.limit
    · rw [Registry.ids_add_of_room hroom, Registry.add_of_room hroom]
      have hnew := h.taken.append_right [hub.server.registry.nextId]
      cases hub.server.setsUp with
      | true =>
        refine hnew.trans ?_
        simp only [if_true, Option.toList_some, Option.toList_none, List.append_nil,
          List.append_assoc]
        exact List.perm_append_comm.append_left _
      | false =>
        simpa [List.append_assoc] using hnew
    · rw [Registry.add_of_full (Nat.not_lt.1 hroom)]
      simpa using h.taken

/-- Every event keeps a place for each connection that is being served or was lost, and no other. -/
theorem consistent_step (h : hub.Consistent limit) (event : HubEvent σ) :
    (hub.step event).Consistent limit := by
  cases event with
  | connect now => exact consistent_connect h now
  | socket n event =>
    unfold step
    simp only
    split
    · exact h
    · rename_i socket hsocket
      exact consistent_stepAt h hsocket event
  | store s => exact ⟨h.sound, h.limited, h.taken⟩

theorem consistent_run (h : hub.Consistent limit) (events : List (HubEvent σ)) :
    (hub.run events).Consistent limit := by
  induction events generalizing hub with
  | nil => exact h
  | cons event events ih => exact ih (consistent_step h event)

/-! ## Places that are free -/

/-- Clients that connect are registered as long as there is a place that is not taken. -/
theorem admitted_eq (hub : Hub σ τ) (moments : List Nat) : hub.admitted moments =
    min moments.length (hub.server.registry.limit - hub.server.registry.count) := by
  induction moments generalizing hub with
  | nil => simp [admitted]
  | cons now moments ih =>
    have hregistry : (hub.step (.connect now)).server.registry =
        (hub.server.registry.add now).2 := hub.server.registry_connect now
    rw [admitted, ih, hregistry, Registry.limit_add, Registry.count_add, List.length_cons]
    unfold Server.takes
    by_cases hroom : hub.server.registry.count < hub.server.registry.limit
    · rw [Registry.add_of_room hroom, if_pos hroom, Option.isSome_some, if_pos rfl]
      omega
    · rw [Registry.add_of_full (Nat.not_lt.1 hroom), if_neg hroom, Option.isSome_none,
        if_neg Bool.false_ne_true]
      omega

/-- The places are right just as long as no connection was lost. -/
theorem Consistent.freesSlots_iff (h : hub.Consistent limit) :
    hub.FreesSlots limit ↔ hub.lost = [] := by
  have hcount := h.count_eq
  constructor
  · intro hslots
    have hcounts := hslots.counts
    exact List.eq_nil_of_length_eq_zero (by omega)
  · intro hlost
    rw [hlost, List.length_nil, Nat.add_zero] at hcount
    refine ⟨hcount, fun moments => ?_⟩
    rw [admitted_eq, h.limited, hcount]

/-! ## Stores that do not break down -/

theorem feedBuffer_connect (server : Server σ) (now : Nat) :
    (server.connect now).2.2.feedBuffer = server.feedBuffer := by
  unfold Server.connect
  split
  · rfl
  · split <;> rfl

/-- A turn of the loop of a connection neither loses another nor changes the room for changes. -/
theorem frame_stepAt (hub : Hub σ τ) (n : Nat) (socket : Socket τ) (event : SocketEvent) :
    (hub.stepAt n socket event).server.feedBuffer = hub.server.feedBuffer ∧
      (hub.stepAt n socket event).lost = hub.lost := by
  cases socket with
  | ended => exact ⟨rfl, rfl⟩
  | serving id relay => exact ⟨(turns hub.server id relay true event).feedBuffer, rfl⟩

/-- Whether no session of any store breaks down as it is opened. -/
def NeverCrashes (σ : Type) {τ : Type} [DocumentStore σ τ] : Prop :=
  ∀ (s : σ) (message? : Option String), DocumentStore.openSession s ≠ .error (.crash message?)

theorem storeCrashes_of_neverCrashes (h : NeverCrashes σ) (server : Server σ) :
    server.storeCrashes = false := by
  unfold Server.storeCrashes
  split
  · rename_i message? hcrash
    exact absurd hcrash (h server.store message?)
  · rfl

theorem lost_step (h : NeverCrashes σ) (hbuffer : Channel.isCapacity hub.server.feedBuffer = true)
    (event : HubEvent σ) :
    (hub.step event).server.feedBuffer = hub.server.feedBuffer ∧
      (hub.step event).lost = hub.lost := by
  cases event with
  | connect now =>
    have hsetsUp : hub.server.setsUp = true := by
      rw [Server.setsUp, hbuffer, storeCrashes_of_neverCrashes h]
      rfl
    refine ⟨feedBuffer_connect hub.server now, ?_⟩
    change hub.lost ++ (hub.losing? now).toList = hub.lost
    rw [losing?, if_pos hsetsUp, Option.toList_none, List.append_nil]
  | socket n event =>
    simp only [step]
    split
    · exact ⟨rfl, rfl⟩
    · rename_i socket _
      exact frame_stepAt hub n socket event
  | store s => exact ⟨rfl, rfl⟩

theorem lost_run (h : NeverCrashes σ) (hbuffer : Channel.isCapacity hub.server.feedBuffer = true)
    (events : List (HubEvent σ)) : (hub.run events).lost = hub.lost := by
  induction events generalizing hub with
  | nil => rfl
  | cons event events ih =>
    obtain ⟨hsame, hlost⟩ := lost_step h hbuffer event
    exact (ih (hsame ▸ hbuffer)).trans hlost

theorem MemoryStore.neverCrashes : NeverCrashes MemoryStore := by
  intro s message? hcrash
  change s.openSession = _ at hcrash
  unfold MemoryStore.openSession at hcrash
  split at hcrash <;> cases hcrash

/-- Over stores that do not break down, and with room for changes that a channel can have, a place
is free again once its connection is not served any more, for whatever reason. -/
theorem freesSlots_of_neverCrashes (h : NeverCrashes σ) (store : σ) (settings : ServerSettings)
    (hbuffer : Channel.isCapacity settings.feedBuffer = true) (events : List (HubEvent σ)) :
    ((start store settings : Hub σ τ).run events).FreesSlots settings.maxConnections :=
  (consistent_run (consistent_start store settings) events).freesSlots_iff.2
    (lost_run h hbuffer events)

/-! ## Every run -/

/-- In every run the places that are taken are those of the connections that are being served and of
those that were lost. So the places of ended connections are free again, and all that are not served
can be had, just as long as no connection was lost in its set-up. -/
theorem slots_taken (store : σ) (settings : ServerSettings) (events : List (HubEvent σ)) :
    let hub := (start store settings : Hub σ τ).run events
    hub.server.registry.count = hub.serving + hub.lost.length ∧
      (hub.FreesSlots settings.maxConnections ↔ hub.lost = []) := by
  intro hub
  have h : hub.Consistent settings.maxConnections :=
    consistent_run (consistent_start store settings) events
  exact ⟨h.count_eq, h.freesSlots_iff⟩

/-- The only place of a server, taken by a connection that was gone at once. -/
theorem slot_kept_by_lost_connection :
    let settings : ServerSettings := { maxConnections := 1 }
    let hub := (start (BrokenStore.mk none) settings : Hub BrokenStore Empty).run [.connect 0]
    Config.fault? { server := settings } = none ∧ hub.serving = 0 ∧
      hub.server.registry.count = 1 ∧ hub.server.takes 1 = false ∧
      ¬ hub.FreesSlots settings.maxConnections := by
  refine ⟨by decide, rfl, rfl, rfl, fun h => ?_⟩
  exact absurd h.counts (by decide)

end Hub

end TrialBoard.Gateway
