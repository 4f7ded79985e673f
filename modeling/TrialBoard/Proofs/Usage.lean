import TrialBoard.Proofs.RelayLaws
import TrialBoard.Proofs.RelayProgress

/-!
# What is taken of a store in memory

A store in memory counts its open sessions, and its feeds count their readers. `Usage` is such a
store with all that was taken of it: sessions and streams that are used by themselves, and relays,
each of which has a session and a stream for every forwarder that has not stopped.

The counters are right at any time, and so in particular when no forwarder can take a step any more.
What one relay makes of the store is looked at with everything else held by others as a list of
collections: `MemoryStore.Counts` says that the readers of the feeds are those of a list, and each
step puts the streams of the relay in front of it in the place of those before.
-/

namespace TrialBoard

/-! ## Readers counted -/

namespace MemoryStore

/-- Whether the readers of each feed are as many as its collection occurs in a list. -/
def Counts (s : MemoryStore) (held : List Collection) : Prop :=
  ∀ c, (s.feeds.get c).readers = held.count c

variable {s : MemoryStore} {held held' : List Collection} {c : Collection}

theorem readers_countReaders_self (s : MemoryStore) (c : Collection) (f : Nat → Nat) :
    ((s.countReaders c f).feeds.get c).readers = f (s.feeds.get c).readers := by
  rw [countReaders, ByCollection.get_set_self]

theorem readers_countReaders_of_ne (s : MemoryStore) {c d : Collection} (h : d ≠ c)
    (f : Nat → Nat) : ((s.countReaders c f).feeds.get d).readers = (s.feeds.get d).readers := by
  rw [countReaders, ByCollection.get_set_of_ne _ h]

theorem Counts.perm (h : s.Counts held) (hperm : held.Perm held') : s.Counts held' :=
  fun c => (h c).trans (hperm.count_eq c)

theorem Counts.take (h : s.Counts held) (c : Collection) :
    (s.countReaders c (· + 1)).Counts (c :: held) := by
  intro d
  by_cases hd : d = c
  · rw [hd, readers_countReaders_self, List.count_cons_self, h c]
  · rw [readers_countReaders_of_ne s hd, List.count_cons_of_ne (Ne.symm hd), h d]

theorem Counts.giveBack (h : s.Counts (c :: held)) : (s.countReaders c (· - 1)).Counts held := by
  intro d
  by_cases hd : d = c
  · rw [hd, readers_countReaders_self, h c, List.count_cons_self, Nat.add_sub_cancel]
  · rw [readers_countReaders_of_ne s hd, h d, List.count_cons_of_ne (Ne.symm hd)]

theorem sum_count (held : List Collection) :
    held.count .experiments + held.count .transformations + held.count .tests
      + held.count .analytics = held.length := by
  induction held with
  | nil => rfl
  | cons c held ih =>
    rw [List.length_cons, ← ih]
    cases c <;> simp <;> omega

/-- The streams that are counted are as many as the list is long. -/
theorem Counts.liveStreams_eq (h : s.Counts held) : s.liveStreams = held.length := by
  rw [← sum_count, ← h .experiments, ← h .transformations, ← h .tests, ← h .analytics, liveStreams,
    ByCollection.toList]
  simp only [List.map_cons, List.map_nil, List.foldl_cons, List.foldl_nil, Nat.zero_add]
  rfl

end MemoryStore

/-! ## One relay -/

namespace Relay

/-- What holds of a relay at any time: it has one forwarder for a collection at most, each reads its
collection, and there are none in a relay that is closed. -/
structure IsTidy (r : Relay FeedReader) : Prop where
  distinct : r.live.Nodup
  streams : ∀ f ∈ r.forwarders, f.stream.collection = f.collection
  closed : r.state = .closed → r.forwarders = []

/-- How many sessions a relay has. -/
def sessions (r : Relay FeedReader) : Nat := if r.state = .subscribed then 1 else 0

/-- The sessions of a relay, none if it was dropped. -/
def sessionsOf (r? : Option (Relay FeedReader)) : Nat := (r?.map sessions).getD 0

/-- The collections of a relay's streams, none if it was dropped. -/
def liveOf (r? : Option (Relay FeedReader)) : List Collection := (r?.map live).getD []

/-- Whether a relay and its store change in such a way that the counters of the store change by what
the relay takes and gives back. -/
structure Balances (s : MemoryStore) (r : Relay FeedReader)
    (out : Option (Relay FeedReader) × MemoryStore) : Prop where
  tidy : ∀ r', out.1 = some r' → r'.IsTidy
  sessions : ∀ k, s.openSessions = r.sessions + k → out.2.openSessions = sessionsOf out.1 + k
  streams : ∀ held, s.Counts (r.live ++ held) → out.2.Counts (liveOf out.1 ++ held)

variable {r r' : Relay FeedReader} {s s' : MemoryStore} {f : Forwarder FeedReader}
  {c : Collection} {held : List Collection} {n : Nat}

theorem isTidy_update (h : r.IsTidy) (hf : f.stream.collection = f.collection) :
    (r.update f).IsTidy := by
  refine ⟨by rw [live_update]; exact h.distinct, fun g hg => ?_, fun hclosed => ?_⟩
  · obtain ⟨other, hother, rfl⟩ := List.mem_map.1 hg
    split
    · exact hf
    · exact h.streams other hother
  · rw [update, h.closed hclosed]
    rfl

theorem isTidy_remove (h : r.IsTidy) (c : Collection) : (r.remove c).IsTidy := by
  refine ⟨by rw [live_remove]; exact h.distinct.filter _, fun g hg => ?_, fun hclosed => ?_⟩
  · exact h.streams g (List.mem_filter.1 hg).1
  · rw [remove, h.closed hclosed]
    rfl

theorem isTidy_of_forwarders {channel : Channel} (h : r.IsTidy) :
    ({ r with channel } : Relay FeedReader).IsTidy := ⟨h.distinct, h.streams, h.closed⟩

/-- A forwarder that stops gives its stream back. -/
theorem counts_stop (h : r.IsTidy) (hf : r.forwarder? c = some f) {stream : FeedReader}
    (hstream : stream.collection = c) (hcounts : s.Counts (r.live ++ held)) :
    (s.countReaders stream.collection (· - 1)).Counts ((r.remove c).live ++ held) := by
  have hlive : c ∈ r.live := mem_live_iff.2 ⟨f, hf⟩
  have hperm : r.live.Perm (c :: (r.remove c).live) := by
    rw [live_remove, ← h.distinct.erase_eq_filter]
    exact List.perm_cons_erase hlive
  rw [hstream]
  exact (hcounts.perm (hperm.append_right held)).giveBack

/-- A relay that keeps its state keeps its session. -/
theorem balances_of_state (htidy : r'.IsTidy) (hstate : r'.state = r.state)
    (hopen : s'.openSessions = s.openSessions)
    (hstreams : ∀ held, s.Counts (r.live ++ held) → s'.Counts (r'.live ++ held)) :
    Balances s r (some r', s') := by
  refine ⟨fun r'' hr'' => Option.some.inj hr'' ▸ htidy, fun k hk => ?_, hstreams⟩
  have hsame : sessionsOf (some r') = r.sessions := by
    rw [sessions, ← hstate]
    rfl
  rw [hsame, ← hk]
  exact hopen

/-- A step of a forwarder. -/
theorem balances_act (h : r.IsTidy) (hact : r.act s c = some (r', s')) :
    Balances s r (some r', s') := by
  obtain ⟨f, hf, hacts⟩ := acts_of_act hact
  obtain rfl := collection_of_forwarder? hf
  have hstream := h.streams f (mem_forwarders hf)
  have hnext : ∀ {result stream}, DocumentStore.next s f.stream = .item result stream →
      stream.collection = f.collection := by
    intro result stream hnext
    obtain ⟨-, -, heq, -⟩ := Delivery.next_eq_item hnext
    rw [heq]
    exact hstream
  have hupdated : ∀ (g : Forwarder FeedReader) held, s.Counts (r.live ++ held) →
      s.Counts ((r.update g).live ++ held) := by
    intro g held hcounts
    rwa [live_update]
  cases hacts with
  | lost hheld hreceiver =>
    exact balances_of_state (isTidy_remove h _) rfl rfl fun _ => counts_stop h hf hstream
  | ended hheld hended => exact absurd hended (Delivery.next_ne_ended _ _)
  | failed hheld hfailed =>
    exact balances_of_state (isTidy_remove h _) rfl rfl fun _ => counts_stop h hf (hnext hfailed)
  | sent hheld hreceiver hturn hroom =>
    exact balances_of_state (isTidy_of_forwarders (isTidy_update h hstream)) rfl rfl (hupdated _)
  | skipped hheld hitem hbeat =>
    exact balances_of_state (isTidy_update h (hnext hitem)) rfl rfl (hupdated _)
  | took hheld hitem hbeat =>
    exact balances_of_state (isTidy_of_forwarders (isTidy_update h (hnext hitem))) rfl rfl
      (hupdated _)

theorem balances_receive (h : r.IsTidy) : Balances s r (some ((r.receive.map Prod.snd).getD r), s) := by
  unfold receive
  split
  · exact balances_of_state (isTidy_of_forwarders h) rfl rfl fun _ hcounts => hcounts
  · exact balances_of_state h rfl rfl fun _ hcounts => hcounts

/-- Streams that are given back one after the other are all counted until then. -/
theorem counts_dropStreams (fs : List (Forwarder FeedReader))
    (hcounts : s.Counts (fs.map (·.stream.collection) ++ held)) :
    (fs.foldl (fun s f => DocumentStore.dropStream s f.stream) s).Counts held := by
  induction fs generalizing s with
  | nil => exact hcounts
  | cons f fs ih => exact ih (s := s.countReaders f.stream.collection (· - 1)) hcounts.giveBack

theorem openSessions_dropStreams (fs : List (Forwarder FeedReader)) (s : MemoryStore) :
    (fs.foldl (fun s f => DocumentStore.dropStream s f.stream) s).openSessions =
      s.openSessions := by
  induction fs generalizing s with
  | nil => rfl
  | cons f fs ih => exact ih _

theorem close_of_closed (h : r.state = .closed) (s : MemoryStore) : r.close s = (r, s) := by
  unfold close
  rw [h]

theorem close_of_subscribed (h : r.state = .subscribed) (s : MemoryStore) : r.close s =
    ({ r with state := .closed, forwarders := [], channel := { r.channel with waiting := [] } },
      (r.forwarders.foldl (fun s f => DocumentStore.dropStream s f.stream) s).closeSession) := by
  unfold close
  rw [h]
  rfl

theorem state_close (r : Relay FeedReader) (s : MemoryStore) : (r.close s).1.state = .closed := by
  cases h : r.state with
  | closed => rw [close_of_closed h, h]
  | subscribed => rw [close_of_subscribed h]

/-- A relay that is closed, or dropped, gives back its session and all its streams. -/
theorem balances_close (h : r.IsTidy) : Balances s r (some (r.close s).1, (r.close s).2) ∧
    Balances s r (none, (r.close s).2) := by
  cases hstate : r.state with
  | closed =>
    have hlive : r.live = [] := by rw [live, h.closed hstate]; rfl
    have hnone : r.sessions = 0 := by rw [sessions, hstate]; rfl
    rw [close_of_closed hstate]
    refine ⟨balances_of_state h rfl rfl fun _ hcounts => hcounts, fun _ h => (by cases h), fun k hk => ?_,
      fun held hcounts => ?_⟩
    · rwa [hnone] at hk
    · rwa [hlive] at hcounts
  | subscribed =>
    have hstreams : r.forwarders.map (·.stream.collection) = r.live :=
      List.map_congr_left h.streams
    have hall : ∀ held, s.Counts (r.live ++ held) → (r.close s).2.Counts held := by
      intro held hcounts
      rw [close_of_subscribed hstate]
      exact counts_dropStreams r.forwarders (hstreams.symm ▸ hcounts)
    have hone : r.sessions = 1 := by rw [sessions, hstate]; rfl
    have hopen : ∀ k, s.openSessions = r.sessions + k → (r.close s).2.openSessions = 0 + k := by
      intro k hk
      rw [close_of_subscribed hstate]
      change (r.forwarders.foldl _ s).openSessions - 1 = 0 + k
      rw [openSessions_dropStreams, hk, hone]
      omega
    have htidy : (r.close s).1.IsTidy := by
      rw [close_of_subscribed hstate]
      exact ⟨List.nodup_nil, fun f hf => absurd hf List.not_mem_nil, fun _ => rfl⟩
    have hempty : (r.close s).1.live = [] := by rw [close_of_subscribed hstate]; rfl
    have hgone : (r.close s).1.sessions = 0 := by rw [sessions, state_close]; rfl
    refine ⟨⟨fun r' hr' => Option.some.inj hr' ▸ htidy, fun k hk => ?_, fun held hcounts => ?_⟩,
      fun _ h => (by cases h), hopen, hall⟩
    · change (r.close s).2.openSessions = (r.close s).1.sessions + k
      rw [hgone]
      exact hopen k hk
    · change (r.close s).2.Counts ((r.close s).1.live ++ held)
      rw [hempty]
      exact hall held hcounts

theorem counts_subscribeAll (cs : List Collection) (hcounts : s.Counts held) :
    (subscribeAll s cs).2.Counts ((subscribeAll s cs).1.map (·.collection) ++ held) ∧
      (subscribeAll s cs).2.openSessions = s.openSessions := by
  induction cs generalizing s held with
  | nil => exact ⟨hcounts, rfl⟩
  | cons c cs ih =>
    have hsubscribe : DocumentStore.subscribe s c = s.subscribe c := rfl
    unfold subscribeAll
    rw [hsubscribe, Delivery.subscribe_eq]
    split
    · rename_i stream taken hok
      split at hok
      · cases hok
      · obtain ⟨rfl, rfl⟩ := Prod.mk.inj (Except.ok.inj hok)
        obtain ⟨hall, hsame⟩ := ih (hcounts.take c)
        exact ⟨hall.perm List.perm_middle, hsame⟩
    · exact ih hcounts

/-- A relay that is attached takes a session, if it can be opened, and a stream for each
forwarder. -/
theorem counts_attach (capacity : Nat) (hcounts : s.Counts held) :
    (attach s capacity).1.IsTidy ∧
      (attach s capacity).2.Counts ((attach s capacity).1.live ++ held) ∧
      (attach s capacity).2.openSessions = (attach s capacity).1.sessions + s.openSessions := by
  have hrelay : (attach s capacity).1 = (Delivery.attach s capacity).relay := rfl
  have hstore : (attach s capacity).2 = (Delivery.attach s capacity).store := rfl
  rw [hrelay, hstore]
  cases hfault : s.faults.unavailable with
  | true =>
    rw [Delivery.attach_of_unavailable hfault]
    exact ⟨⟨List.nodup_nil, fun f hf => absurd hf List.not_mem_nil, fun _ => rfl⟩, hcounts,
      (Nat.zero_add _).symm⟩
  | false =>
    rw [Delivery.attach_of_available hfault]
    have hopened : ({ s with openSessions := s.openSessions + 1 } : MemoryStore).Counts held :=
      hcounts
    obtain ⟨hall, hsame⟩ := counts_subscribeAll Collection.all hopened
    obtain ⟨hlive, hstreams, -⟩ := Delivery.subscribeAll_spec
      { s with openSessions := s.openSessions + 1 } Collection.all
    refine ⟨⟨?_, fun f hf => (hstreams f hf).2.1, nofun⟩, hall, ?_⟩
    · have hnodup : Collection.all.Nodup := by decide
      change (List.map _ _).Nodup
      rw [hlive]
      exact hnodup.filter _
    · exact hsame.trans (Nat.add_comm _ _)

end Relay

/-! ## Runs -/

/-- A store in memory with what was taken of it. -/
structure Usage where
  store : MemoryStore := .empty
  /-- How many sessions were opened and not dropped. -/
  sessions : Nat := 0
  /-- The streams that were opened and not dropped. -/
  streams : List FeedReader := []
  /-- The relays that were attached, in their order. There is none where one was dropped. -/
  relays : List (Option (Relay FeedReader)) := []

namespace Usage

open Relay (sessionsOf liveOf Balances)

/-- What can happen to a store in memory and to what was taken of it. -/
inductive Event where
  | openSession
  | dropSession
  /-- A stream of a collection is opened in one of the sessions. -/
  | changes (c : Collection)
  /-- A stream is asked for an item. -/
  | next (n : Nat)
  | dropStream (n : Nat)
  /-- The store is told to fail in other ways. -/
  | inject (faults : Faults)
  /-- An item is published, an event or a failure, and the rows are others afterwards. -/
  | publish (rows : ByCollection (List Document)) (c : Collection) (item : FeedItem)
  | attach (capacity : Nat)
  /-- The forwarder of a collection takes a step, if it can. -/
  | act (n : Nat) (c : Collection)
  | receive (n : Nat)
  | dropReceiver (n : Nat)
  | close (n : Nat)
  | dropRelay (n : Nat)

/-- A relay that was not dropped. -/
def relay? (x : Usage) (n : Nat) : Option (Relay FeedReader) := (x.relays[n]?).join

/-- Does something with a relay and the store. -/
def onRelay (x : Usage) (n : Nat)
    (f : MemoryStore → Relay FeedReader → Option (Relay FeedReader) × MemoryStore) : Usage :=
  match x.relay? n with
  | none => x
  | some r =>
    let (r?, store) := f x.store r
    { x with store, relays := x.relays.set n r? }

/-- A step of a forwarder, if it can take one. -/
def actRelay (c : Collection) (s : MemoryStore) (r : Relay FeedReader) :
    Option (Relay FeedReader) × MemoryStore :=
  match r.act s c with
  | some (r, s) => (some r, s)
  | none => (some r, s)

/-- What happens next. -/
def step (x : Usage) : Event → Usage
  | .openSession =>
    match x.store.openSession with
    | .ok store => { x with store, sessions := x.sessions + 1 }
    | .error _ => x
  | .dropSession =>
    if x.sessions = 0 then x
    else { x with store := x.store.closeSession, sessions := x.sessions - 1 }
  | .changes c =>
    if x.sessions = 0 then x
    else
      match x.store.subscribe c with
      | .ok (stream, store) => { x with store, streams := x.streams ++ [stream] }
      | .error _ => x
  | .next n =>
    match x.streams[n]? with
    | none => x
    | some stream =>
      match DocumentStore.next x.store stream with
      | .item _ stream | .pending stream => { x with streams := x.streams.set n stream }
      | .ended => x
  | .dropStream n =>
    match x.streams[n]? with
    | none => x
    | some stream =>
      { x with store := DocumentStore.dropStream x.store stream, streams := x.streams.eraseIdx n }
  | .inject faults => { x with store := { x.store with faults } }
  | .publish rows c item => { x with store := { x.store with rows }.publish c item }
  | .attach capacity =>
    let (r, store) := Relay.attach x.store capacity
    { x with store, relays := x.relays ++ [some r] }
  | .act n c => x.onRelay n (actRelay c)
  | .receive n => x.onRelay n fun s r => (some ((r.receive.map Prod.snd).getD r), s)
  | .dropReceiver n => x.onRelay n fun s r => (some r.dropReceiver, s)
  | .close n => x.onRelay n fun s r => (some (r.close s).1, (r.close s).2)
  | .dropRelay n => x.onRelay n fun s r => (none, (r.close s).2)

/-- All that happens, one after the other. -/
def run (x : Usage) (events : List Event) : Usage := events.foldl step x

/-- How many sessions the relays have: one for each that is subscribed and not dropped. -/
def relaySessions (x : Usage) : Nat := (x.relays.map sessionsOf).sum

/-- How many streams the relays have: one for each forwarder that has not stopped. -/
def relayStreams (x : Usage) : Nat := (x.relays.map fun r? => (liveOf r?).length).sum

/-- How many sessions an event gives back. -/
def sessionsBack (x : Usage) : Event → Nat
  | .dropSession => min 1 x.sessions
  | .close n | .dropRelay n => sessionsOf (x.relay? n)
  | _ => 0

/-- How many streams an event gives back. -/
def streamsBack (x : Usage) : Event → Nat
  | .dropStream n => (x.streams[n]?).toList.length
  | .act n c => (liveOf (x.relay? n)).length - (liveOf ((x.step (.act n c)).relay? n)).length
  | .close n | .dropRelay n => (liveOf (x.relay? n)).length
  | _ => 0

/-! ### One relay of many -/

variable {x : Usage} {n m : Nat} {r : Relay FeedReader}
  {f : MemoryStore → Relay FeedReader → Option (Relay FeedReader) × MemoryStore}

theorem onRelay_of_some (h : x.relay? n = some r) : x.onRelay n f =
    { x with store := (f x.store r).2, relays := x.relays.set n (f x.store r).1 } := by
  simp only [onRelay, h]

theorem onRelay_of_none (h : x.relay? n = none) : x.onRelay n f = x := by
  simp only [onRelay, h]

/-- The relays around one, which stay when something else is put in its place. -/
theorem exists_around (h : x.relay? n = some r) (r? : Option (Relay FeedReader)) :
    ∃ before after, x.relays = before ++ some r :: after ∧
      x.relays.set n r? = before ++ r? :: after := by
  obtain ⟨hn, heq⟩ := List.getElem?_eq_some_iff.1 (Option.join_eq_some_iff.1 h)
  obtain ⟨before, after, hrelays, -, hset⟩ := List.exists_of_set hn
  exact ⟨before, after, heq ▸ hrelays, hset⟩

theorem relaySessions_set (h : x.relay? n = some r) (r? : Option (Relay FeedReader)) :
    ({ x with relays := x.relays.set n r? } : Usage).relaySessions + r.sessions =
      x.relaySessions + sessionsOf r? := by
  obtain ⟨before, after, hrelays, hset⟩ := exists_around h r?
  have hself : sessionsOf (some r) = r.sessions := rfl
  change ((x.relays.set n r?).map sessionsOf).sum + _ = (x.relays.map sessionsOf).sum + _
  rw [hset, hrelays]
  simp only [List.map_append, List.map_cons, List.sum_append, List.sum_cons, hself]
  omega

theorem relayStreams_set (h : x.relay? n = some r) (r? : Option (Relay FeedReader)) :
    ({ x with relays := x.relays.set n r? } : Usage).relayStreams + r.live.length =
      x.relayStreams + (liveOf r?).length := by
  obtain ⟨before, after, hrelays, hset⟩ := exists_around h r?
  have hself : liveOf (some r) = r.live := rfl
  change ((x.relays.set n r?).map fun r? => (liveOf r?).length).sum + _ =
    (x.relays.map fun r? => (liveOf r?).length).sum + _
  rw [hset, hrelays]
  simp only [List.map_append, List.map_cons, List.sum_append, List.sum_cons, hself]
  omega

theorem sessions_le (h : x.relay? n = some r) : r.sessions ≤ x.relaySessions := by
  have hrest := relaySessions_set h none
  change _ = _ + 0 at hrest
  omega

theorem length_live_le (h : x.relay? n = some r) : r.live.length ≤ x.relayStreams := by
  have hrest := relayStreams_set h none
  change _ = _ + 0 at hrest
  omega

theorem relay?_set_self (h : x.relay? n = some r) (r? : Option (Relay FeedReader)) :
    ({ x with relays := x.relays.set n r? } : Usage).relay? n = r? := by
  obtain ⟨hn, -⟩ := List.getElem?_eq_some_iff.1 (Option.join_eq_some_iff.1 h)
  rw [relay?, List.getElem?_set_self hn]
  rfl

theorem relay?_set_of_ne (x : Usage) (h : m ≠ n) (r? : Option (Relay FeedReader)) :
    ({ x with relays := x.relays.set n r? } : Usage).relay? m = x.relay? m := by
  rw [relay?, List.getElem?_set_ne (Ne.symm h)]
  rfl

/-! ### What a run keeps -/

/-- Whether the counters of a store are those of what was taken of it. -/
structure Consistent (x : Usage) : Prop where
  tidy : ∀ n r, x.relay? n = some r → r.IsTidy
  sessions : x.store.openSessions = x.sessions + x.relaySessions
  streams : x.store.Counts (x.streams.map (·.collection) ++ x.relays.flatMap liveOf)

theorem perm_front (a b c d : List Collection) :
    (a ++ (b ++ (c ++ d))).Perm (c ++ (a ++ (b ++ d))) := by
  rw [← List.append_assoc, ← List.append_assoc a]
  exact List.perm_append_comm_assoc ..

/-- What one relay makes of its store leaves the counters right for all of them. -/
theorem Consistent.onRelay (h : x.Consistent) (n : Nat)
    (hf : ∀ s r, r.IsTidy → Balances s r (f s r)) : (x.onRelay n f).Consistent := by
  cases hr : x.relay? n with
  | none => rwa [onRelay_of_none hr]
  | some r =>
    have hbalances := hf x.store r (h.tidy n r hr)
    rw [onRelay_of_some hr]
    refine ⟨fun m r' hr' => ?_, ?_, ?_⟩
    · by_cases hm : m = n
      · subst hm
        exact hbalances.tidy r' ((relay?_set_self hr _).symm.trans hr')
      · exact h.tidy m r' ((relay?_set_of_ne x hm _).symm.trans hr')
    · have hsum := relaySessions_set hr (f x.store r).1
      have hle := sessions_le hr
      have hsessions := h.sessions
      have hafter := hbalances.sessions (x.store.openSessions - r.sessions) (by omega)
      change (f x.store r).2.openSessions = x.sessions +
        ({ x with relays := x.relays.set n (f x.store r).1 } : Usage).relaySessions
      omega
    · obtain ⟨before, after, hrelays, hset⟩ := exists_around hr (f x.store r).1
      have hstreams := h.streams
      rw [hrelays, List.flatMap_append, List.flatMap_cons] at hstreams
      simp only [hset, List.flatMap_append, List.flatMap_cons]
      exact (hbalances.streams _ (hstreams.perm (perm_front ..))).perm (perm_front ..).symm

theorem consistent_empty : Consistent {} :=
  ⟨fun n r hr => by simp [relay?] at hr, rfl, fun c => by cases c <;> rfl⟩

/-- A session that is opened or dropped. -/
theorem Consistent.sessions_eq (h : x.Consistent) {store : MemoryStore} {sessions : Nat}
    (hfeeds : store.feeds = x.store.feeds)
    (hsessions : store.openSessions = sessions + x.relaySessions) :
    Consistent { x with store, sessions } := by
  refine ⟨h.tidy, hsessions, fun c => ?_⟩
  change (store.feeds.get c).readers = _
  rw [hfeeds]
  exact h.streams c

/-- A stream that is opened, dropped, or asked. -/
theorem Consistent.streams_eq (h : x.Consistent) {store : MemoryStore} {streams : List FeedReader}
    (hopen : store.openSessions = x.store.openSessions)
    (hstreams : store.Counts (streams.map (·.collection) ++ x.relays.flatMap liveOf)) :
    Consistent { x with store, streams } :=
  ⟨h.tidy, hopen.trans h.sessions, hstreams⟩

theorem consistent_changes (h : x.Consistent) (c : Collection) :
    (x.step (.changes c)).Consistent := by
  simp only [step]
  split
  · exact h
  · rw [Delivery.subscribe_eq]
    split
    · rename_i stream store hok
      split at hok
      · cases hok
      · obtain ⟨rfl, rfl⟩ := Prod.mk.inj (Except.ok.inj hok)
        refine h.streams_eq rfl ((h.streams.take c).perm ?_)
        rw [List.map_append, List.append_assoc]
        exact List.perm_middle.symm
    · exact h

theorem consistent_next (h : x.Consistent) (n : Nat) : (x.step (.next n)).Consistent := by
  have hkept : ∀ {stream stream' : FeedReader}, x.streams[n]? = some stream →
      stream'.collection = stream.collection →
        Consistent { x with streams := x.streams.set n stream' } := by
    intro stream stream' hstream hsame
    refine h.streams_eq rfl ?_
    obtain ⟨hn, rfl⟩ := List.getElem?_eq_some_iff.1 hstream
    have hmap : (x.streams.set n stream').map (·.collection) = x.streams.map (·.collection) := by
      obtain ⟨before, after, hstreams, -, hset⟩ := @List.exists_of_set _ n stream' _ hn
      rw [hset, List.map_append, List.map_cons, hsame, ← List.map_cons, ← List.map_append,
        ← hstreams]
    rw [hmap]
    exact h.streams
  simp only [step]
  split
  · exact h
  · rename_i stream hstream
    split
    · rename_i result stream' hnext
      obtain ⟨-, -, heq, -⟩ := Delivery.next_eq_item hnext
      exact hkept hstream (by rw [heq])
    · rename_i stream' hnext
      exact hkept hstream (by rw [Delivery.next_eq_pending hnext])
    · exact h

theorem consistent_dropStream (h : x.Consistent) (n : Nat) :
    (x.step (.dropStream n)).Consistent := by
  simp only [step]
  split
  · exact h
  · rename_i stream hstream
    refine h.streams_eq rfl ?_
    obtain ⟨hn, rfl⟩ := List.getElem?_eq_some_iff.1 hstream
    have hperm := (List.getElem_cons_eraseIdx_perm hn).symm.map (·.collection)
    exact (h.streams.perm (hperm.append_right _)).giveBack

theorem consistent_attach (h : x.Consistent) (capacity : Nat) :
    (x.step (.attach capacity)).Consistent := by
  obtain ⟨htidy, hcounts, hopen⟩ := Relay.counts_attach capacity h.streams
  have hsessions := h.sessions
  refine ⟨fun n r hr => ?_, ?_, hcounts.perm ?_⟩
  · rw [relay?, Option.join_eq_some_iff] at hr
    rcases List.mem_append.1 (List.mem_of_getElem? hr) with hold | hnew
    · obtain ⟨m, hm⟩ := List.mem_iff_getElem?.1 hold
      exact h.tidy m r (Option.join_eq_some_iff.2 hm)
    · rw [Option.some.inj (List.mem_singleton.1 hnew)]
      exact htidy
  · change _ = x.sessions + ((x.relays ++ [_]).map sessionsOf).sum
    rw [List.map_append, List.sum_append, List.map_singleton, List.sum_singleton]
    change (Relay.attach x.store capacity).2.openSessions =
      x.sessions + (x.relaySessions + (Relay.attach x.store capacity).1.sessions)
    omega
  · change List.Perm _ (x.streams.map (·.collection) ++
      (x.relays ++ [some (Relay.attach x.store capacity).1]).flatMap liveOf)
    rw [List.flatMap_append, List.flatMap_singleton]
    refine List.perm_append_comm.trans ?_
    rw [List.append_assoc]
    rfl

theorem consistent_step (h : x.Consistent) (event : Event) : (x.step event).Consistent := by
  cases event with
  | openSession =>
    simp only [step]
    split
    · rename_i store hok
      unfold MemoryStore.openSession at hok
      split at hok
      · cases hok
      · obtain rfl := Except.ok.inj hok
        refine h.sessions_eq rfl ?_
        have hsessions := h.sessions
        change x.store.openSessions + 1 = _
        omega
    · exact h
  | dropSession =>
    simp only [step]
    split
    · exact h
    · refine h.sessions_eq rfl ?_
      have hsessions := h.sessions
      change x.store.openSessions - 1 = _
      omega
  | changes c => exact consistent_changes h c
  | next n => exact consistent_next h n
  | dropStream n => exact consistent_dropStream h n
  | inject faults => exact ⟨h.tidy, h.sessions, h.streams⟩
  | publish rows c item =>
    refine ⟨h.tidy, h.sessions, fun d => Eq.trans ?_ (h.streams d)⟩
    change (ByCollection.get (x.store.feeds.set c _) d).readers = _
    by_cases hd : d = c
    · rw [hd, ByCollection.get_set_self]
      rfl
    · rw [ByCollection.get_set_of_ne _ hd]
  | attach capacity => exact consistent_attach h capacity
  | act n c =>
    change (x.onRelay n (actRelay c)).Consistent
    refine h.onRelay n fun s r hr => ?_
    unfold actRelay
    split
    · rename_i r' s' hact
      exact Relay.balances_act hr hact
    · exact Relay.balances_of_state hr rfl rfl fun _ hcounts => hcounts
  | receive n => exact h.onRelay n fun s r hr => Relay.balances_receive hr
  | dropReceiver n =>
    change (x.onRelay n fun s r => (some r.dropReceiver, s)).Consistent
    exact h.onRelay n fun s r hr =>
      Relay.balances_of_state (Relay.isTidy_of_forwarders hr) rfl rfl fun _ hcounts => hcounts
  | close n => exact h.onRelay n fun s r hr => (Relay.balances_close hr).1
  | dropRelay n => exact h.onRelay n fun s r hr => (Relay.balances_close hr).2

theorem consistent_run (h : x.Consistent) (events : List Event) : (x.run events).Consistent := by
  induction events generalizing x with
  | nil => exact h
  | cons event events ih => exact ih (consistent_step h event)

/-- Whether an event takes from the counters of a store just what a relay has, and leaves everything
else that was taken as it is. -/
structure Releases (x : Usage) (n : Nat) (r : Relay FeedReader) (event : Event) : Prop where
  sessions : (x.step event).store.openSessions + r.sessions = x.store.openSessions
  streams : (x.step event).store.liveStreams + r.live.length = x.store.liveStreams
  relays : ∀ m ≠ n, (x.step event).relay? m = x.relay? m
  handles : (x.step event).sessions = x.sessions ∧ (x.step event).streams = x.streams

/-- Whether the counters of a store are right. -/
structure IsAccounted (x : Usage) : Prop where
  sessions : x.store.openSessions = x.sessions + x.relaySessions
  streams : x.store.liveStreams = x.streams.length + x.relayStreams
  /-- What is given back was counted: no counter goes below zero. -/
  covered : ∀ event, x.sessionsBack event ≤ x.store.openSessions ∧
    x.streamsBack event ≤ x.store.liveStreams
  closes : ∀ n r, x.relay? n = some r → x.Releases n r (.close n)
  drops : ∀ n r, x.relay? n = some r → x.Releases n r (.dropRelay n)
  /-- A relay that is closed stays as it is when it is closed again, and so does everything else. -/
  closesOnce : ∀ n r, x.relay? n = some r →
    (∃ r', (x.step (.close n)).relay? n = some r' ∧ r'.state = .closed) ∧
      (r.state = .closed → x.step (.close n) = x)

/-! ### What is given back -/

theorem Consistent.streams_length (h : x.Consistent) :
    x.store.liveStreams = x.streams.length + x.relayStreams := by
  rw [h.streams.liveStreams_eq, List.length_append, List.length_map, List.length_flatMap]
  rfl

/-- A relay that is closed or dropped takes from the counters what it has. -/
theorem releases_of_close (h : x.Consistent) (hr : x.relay? n = some r) {event : Event}
    {r? : Option (Relay FeedReader)}
    (hstep : x.step event =
      { x with store := (r.close x.store).2, relays := x.relays.set n r? })
    (hsessions : sessionsOf r? = 0) (hstreams : liveOf r? = []) : x.Releases n r event := by
  have hafter := consistent_step h event
  have hhandles : (x.step event).sessions = x.sessions ∧ (x.step event).streams = x.streams := by
    rw [hstep]
    exact ⟨rfl, rfl⟩
  have hsum : (x.step event).relaySessions + r.sessions = x.relaySessions := by
    rw [hstep]
    exact (relaySessions_set hr r?).trans (by rw [hsessions, Nat.add_zero])
  have hlive : (x.step event).relayStreams + r.live.length = x.relayStreams := by
    rw [hstep]
    exact (relayStreams_set hr r?).trans (by rw [hstreams, List.length_nil, Nat.add_zero])
  refine ⟨?_, ?_, fun m hm => ?_, hhandles⟩
  · have hopen := hafter.sessions
    rw [hhandles.1] at hopen
    have hopen' := h.sessions
    omega
  · have hcount := hafter.streams_length
    rw [hhandles.2] at hcount
    have hcount' := h.streams_length
    omega
  · rw [hstep]
    exact relay?_set_of_ne x hm r?

theorem step_close (hr : x.relay? n = some r) : x.step (.close n) =
    { x with store := (r.close x.store).2, relays := x.relays.set n (some (r.close x.store).1) } :=
  onRelay_of_some (f := fun s r => (some (r.close s).1, (r.close s).2)) hr

theorem step_dropRelay (hr : x.relay? n = some r) : x.step (.dropRelay n) =
    { x with store := (r.close x.store).2, relays := x.relays.set n none } :=
  onRelay_of_some (f := fun s r => (none, (r.close s).2)) hr

theorem sessionsOf_close (r : Relay FeedReader) (s : MemoryStore) :
    sessionsOf (some (r.close s).1) = 0 := by
  change (r.close s).1.sessions = 0
  rw [Relay.sessions, Relay.state_close]
  rfl

theorem liveOf_close (h : r.IsTidy) (s : MemoryStore) : liveOf (some (r.close s).1) = [] := by
  change (r.close s).1.live = []
  cases hstate : r.state with
  | closed =>
    rw [Relay.close_of_closed hstate, Relay.live, h.closed hstate]
    rfl
  | subscribed =>
    rw [Relay.close_of_subscribed hstate]
    rfl

/-- Closing a relay that is closed changes nothing at all. -/
theorem step_close_of_closed (hr : x.relay? n = some r) (hclosed : r.state = .closed) :
    x.step (.close n) = x := by
  obtain ⟨hn, heq⟩ := List.getElem?_eq_some_iff.1 (Option.join_eq_some_iff.1 hr)
  rw [step_close hr, Relay.close_of_closed hclosed, ← heq, List.set_getElem_self]

theorem sessionsBack_le (h : x.Consistent) (event : Event) :
    x.sessionsBack event ≤ x.store.openSessions := by
  have hopen := h.sessions
  have hshare : ∀ n, sessionsOf (x.relay? n) ≤ x.relaySessions := by
    intro n
    cases hr : x.relay? n with
    | none => exact Nat.zero_le _
    | some r => exact sessions_le hr
  cases event with
  | dropSession =>
    change min 1 x.sessions ≤ _
    omega
  | close n | dropRelay n =>
    have hle := hshare n
    change sessionsOf (x.relay? n) ≤ _
    omega
  | _ => exact Nat.zero_le _

theorem streamsBack_le (h : x.Consistent) (event : Event) :
    x.streamsBack event ≤ x.store.liveStreams := by
  have hcount := h.streams_length
  have hshare : ∀ n, (liveOf (x.relay? n)).length ≤ x.relayStreams := by
    intro n
    cases hr : x.relay? n with
    | none => exact Nat.zero_le _
    | some r => exact length_live_le hr
  cases event with
  | dropStream n =>
    change (x.streams[n]?).toList.length ≤ _
    cases hstream : x.streams[n]? with
    | none => exact Nat.zero_le _
    | some stream =>
      obtain ⟨hn, -⟩ := List.getElem?_eq_some_iff.1 hstream
      rw [Option.toList_some, List.length_singleton]
      omega
  | act n c =>
    have hle := hshare n
    change (liveOf (x.relay? n)).length - _ ≤ _
    omega
  | close n | dropRelay n =>
    have hle := hshare n
    change (liveOf (x.relay? n)).length ≤ _
    omega
  | _ => exact Nat.zero_le _

/-- In every run over a store in memory that begins empty, its counters are those of the sessions and
streams that were taken and not given back, at any time. They never go below zero, and a relay that
is closed or dropped takes from them just what it has. -/
theorem usage_accounted (events : List Event) : (run {} events).IsAccounted := by
  have h : (run {} events).Consistent := consistent_run consistent_empty events
  refine ⟨h.sessions, h.streams_length, fun event => ⟨sessionsBack_le h event,
    streamsBack_le h event⟩, fun n r hr => ?_, fun n r hr => ?_, fun n r hr => ⟨?_, ?_⟩⟩
  · exact releases_of_close h hr (step_close hr) (sessionsOf_close r _)
      (liveOf_close (h.tidy n r hr) _)
  · exact releases_of_close h hr (step_dropRelay hr) rfl rfl
  · refine ⟨_, ?_, Relay.state_close r (run {} events).store⟩
    rw [step_close hr]
    exact relay?_set_self hr _
  · exact step_close_of_closed hr

/-- A session, a stream, a relay that has lost one forwarder, and one that is closed. -/
example :
    let refusing := ByCollection.ofFn fun c => decide (c = .transformations)
    let x := run {} [.openSession, .changes .tests, .attach 4,
      .inject { failingSubscriptions := refusing }, .attach 4,
      .publish (.ofFn fun _ => []) .tests (.error "gone"), .act 0 .tests, .close 1]
    (x.store.openSessions, x.store.liveStreams) = (2, 4) := by decide

end Usage

end TrialBoard
