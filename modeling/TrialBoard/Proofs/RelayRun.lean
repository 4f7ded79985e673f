import Mathlib
import TrialBoard.Proofs.Failure
import TrialBoard.Proofs.FeedReading
import TrialBoard.Proofs.Forwarding

/-!
# What a relay delivers

`Delivery.run` takes the steps of a relay over a store in memory in any order: publications, the
steps of its forwarders, receives, and the end of the receiver or of the relay. It records what each
stream gave and what was received.

The proofs look at one collection at a time. What was received, what is queued and what is in hand
are, in this order, the feeds of what the stream gave. What the stream gave and what is ahead of it
are what was published, as long as the forwarder keeps up.
-/

namespace TrialBoard

/-- The feeds of what a stream gave before its first failure. Heartbeats have none. -/
def feedsOf (c : Collection) : List (Except StoreError ChangeEvent) → List ChangeFeed
  | [] => []
  | .ok event :: results =>
    if event.isHeartbeat then feedsOf c results else .ofEvent c event :: feedsOf c results
  | .error _ :: _ => []

section feedsOf

variable {c : Collection} {xs ys : List (Except StoreError ChangeEvent)}

theorem feedsOf_upToFailure (c : Collection) (xs : List (Except StoreError ChangeEvent)) :
    feedsOf c (upToFailure xs) = feedsOf c xs := by
  induction xs with
  | nil => rfl
  | cons x xs ih =>
    cases x with
    | ok event => simp [upToFailure, feedsOf, ih]
    | error e => rfl

theorem feedsOf_append (h : ¬ HasFailure xs) (ys : List (Except StoreError ChangeEvent)) :
    feedsOf c (xs ++ ys) = feedsOf c xs ++ feedsOf c ys := by
  induction xs with
  | nil => rfl
  | cons x xs ih =>
    cases x with
    | ok event =>
      have hxs : ¬ HasFailure xs := fun ⟨e, he⟩ => h ⟨e, List.mem_cons_of_mem _ he⟩
      simp only [List.cons_append, feedsOf, ih hxs]
      split <;> simp
    | error e => exact absurd ⟨e, List.mem_cons_self⟩ h

theorem table_of_mem_feedsOf {feed : ChangeFeed} (h : feed ∈ feedsOf c xs) : feed.table = c := by
  induction xs with
  | nil => cases h
  | cons x xs ih =>
    cases x with
    | ok event =>
      simp only [feedsOf] at h
      split at h
      · exact ih h
      · rcases List.mem_cons.1 h with rfl | h
        · rfl
        · exact ih h
    | error e => cases h

end feedsOf

/-- A relay and the store it is attached to, with what its streams gave and what was received. -/
structure Delivery where
  store : MemoryStore
  relay : Relay FeedReader
  yielded : ByCollection (List (Except StoreError ChangeEvent)) := .ofFn fun _ => []
  received : List ChangeFeed := []

namespace Delivery

/-- What can happen to a relay and its store. -/
inductive Step where
  /-- An item is published, and the rows are others afterwards. -/
  | publish (rows : ByCollection (List Document)) (c : Collection) (item : FeedItem)
  /-- The store is told to fail in other ways. -/
  | inject (faults : Faults)
  /-- The forwarder of a collection takes a step, if it can. -/
  | act (c : Collection)
  | receive
  | dropReceiver
  | close

/-- A relay that was just attached to a store. -/
def attach (s : MemoryStore) (capacity : Nat) : Delivery :=
  let (relay, store) := Relay.attach s capacity
  { store, relay }

/-- What the stream of a collection gives in the next step of its forwarder. -/
def yields (x : Delivery) (c : Collection) : List (Except StoreError ChangeEvent) :=
  match x.relay.forwarder? c with
  | none => []
  | some f =>
    match f.held?, DocumentStore.next x.store f.stream with
    | none, .item result _ => [result]
    | _, _ => []

/-- One step. -/
def step (x : Delivery) : Step → Delivery
  | .publish rows c item => { x with store := { x.store with rows }.publish c item }
  | .inject faults => { x with store := { x.store with faults } }
  | .act c =>
    match x.relay.act x.store c with
    | some (relay, store) =>
      { x with relay, store, yielded := x.yielded.set c (x.yielded.get c ++ x.yields c) }
    | none => x
  | .receive =>
    match x.relay.receive with
    | some (feed, relay) => { x with relay, received := x.received ++ [feed] }
    | none => x
  | .dropReceiver => { x with relay := x.relay.dropReceiver }
  | .close =>
    let (relay, store) := x.relay.close x.store
    { x with relay, store }

/-- Steps one after the other. -/
def run (x : Delivery) (steps : List Step) : Delivery := steps.foldl step x

/-- An item of a feed as the streams of a collection give it. -/
def asResult (c : Collection) (item : FeedItem) : Except StoreError ChangeEvent :=
  item.mapError (.subscriptionFailed c)

/-- What a step publishes in a collection. -/
def Step.told (c : Collection) : Step → List (Except StoreError ChangeEvent)
  | .publish _ d item => if d = c then [asResult c item] else []
  | _ => []

/-- Whether a step is one of the relay's own, or a receive. -/
def Step.IsQuiet : Step → Bool
  | .act _ | .receive => true
  | _ => false

/-- What was sent of a collection, received or not. -/
def sent (x : Delivery) (c : Collection) : List ChangeFeed :=
  (x.received ++ x.relay.channel.queue).filter (·.table = c)

/-- What the forwarder of a collection has in hand. -/
def held (x : Delivery) (c : Collection) : List ChangeFeed :=
  ((x.relay.forwarder? c).bind (·.held?)).toList

/-- What the stream of a collection has before it. -/
def ahead (x : Delivery) (c : Collection) : List (Except StoreError ChangeEvent) :=
  match x.relay.forwarder? c with
  | none => []
  | some f => ((x.store.feeds.get c).ahead f.stream.position).map (asResult c)

/-- Whether a store is what another one becomes when something is published in a collection. -/
def Publishes (s : MemoryStore) (c : Collection) (s' : MemoryStore) : Prop :=
  ∃ rows item, s' = { s with rows }.publish c item

theorem step_of_publishes {x : Delivery} {c : Collection} {s' : MemoryStore}
    (h : Publishes x.store c s') :
    ∃ rows item, x.step (.publish rows c item) = { x with store := s' } := by
  obtain ⟨rows, item, rfl⟩ := h
  exact ⟨rows, item, rfl⟩

section Publishes

variable (s : MemoryStore) (c : Collection)

theorem put_publishes (fresh : String) (value : Json) :
    Publishes s c (s.put c fresh value).2 := ⟨_, _, rfl⟩

theorem emit_publishes (event : ChangeEvent) : Publishes s c (s.emit c event).2 := ⟨s.rows, _, rfl⟩

theorem failStream_publishes (reason : String) : Publishes s c (s.failStream c reason).2 :=
  ⟨s.rows, _, rfl⟩

theorem query_eq_ok {α : Type} {s : MemoryStore} {c : Collection} {answer answer' : α}
    (h : s.query c answer = .ok answer') : answer = answer' := by
  unfold MemoryStore.query at h
  split at h
  · cases h
  · split at h
    · cases h
    · exact Except.ok.inj h

theorem insert_publishes {fresh id : String} {doc : Document} {s' : MemoryStore}
    (h : s.insert c fresh doc = .ok (id, s')) : Publishes s c s' :=
  ⟨_, _, (congrArg Prod.snd (query_eq_ok h)).symm⟩

theorem upsert_publishes {id : String} {doc : Document} {s' : MemoryStore}
    (h : s.upsert c id doc = .ok s') : Publishes s c s' :=
  ⟨_, _, (query_eq_ok h).symm⟩

end Publishes

/-! ## What a step leaves as it is -/

variable {x : Delivery} {c d : Collection}

theorem feeds_countReaders (s : MemoryStore) (c d : Collection) (f : Nat → Nat) :
    ∃ n, (s.countReaders c f).feeds.get d = { s.feeds.get d with readers := n } := by
  unfold MemoryStore.countReaders
  by_cases h : d = c
  · subst h
    exact ⟨f (s.feeds.get d).readers, by simp⟩
  · exact ⟨(s.feeds.get d).readers, by simp only [ByCollection.get_set_of_ne _ h]⟩

/-- What a step of a forwarder leaves as it is: all that its store keeps of the feeds, the relay's
state, its receiver and its room, and what was received. -/
structure Frame (x x' : Delivery) : Prop where
  feeds : ∀ d, ∃ n, x'.store.feeds.get d = { x.store.feeds.get d with readers := n }
  state : x'.relay.state = x.relay.state
  hasReceiver : x'.relay.channel.hasReceiver = x.relay.channel.hasReceiver
  capacity : x'.relay.channel.capacity = x.relay.channel.capacity
  received : x'.received = x.received

theorem frame_act (x : Delivery) (c : Collection) : x.Frame (x.step (.act c)) := by
  have hrefl : ∀ d, ∃ n, x.store.feeds.get d = { x.store.feeds.get d with readers := n } :=
    fun d => ⟨_, rfl⟩
  simp only [step]
  split
  · rename_i relay store hact
    obtain ⟨f, -, hacts⟩ := Relay.acts_of_act hact
    cases hacts with
    | lost | ended | failed => exact ⟨fun d => feeds_countReaders .., rfl, rfl, rfl, rfl⟩
    | sent | skipped | took => exact ⟨hrefl, rfl, rfl, rfl, rfl⟩
  · exact ⟨hrefl, rfl, rfl, rfl, rfl⟩

/-! ## What a step of a forwarder does -/

/-- A forwarder after it read an item. -/
def afterReading (f : Forwarder FeedReader) (position : Nat) :
    FeedItem → Option (Forwarder FeedReader)
  | .error _ => none
  | .ok event => some
      { f with
        stream := { f.stream with position }
        held? := if event.isHeartbeat then none else some (.ofEvent f.collection event) }

/-- What a step of its forwarder makes of a collection. -/
inductive Moved (x : Delivery) (c : Collection) (f : Forwarder FeedReader) (x' : Delivery) : Prop
  | dropped (receiver : x.relay.channel.hasReceiver = false) (after : x'.relay.forwarder? c = none)
      (yielded : x'.yielded.get c = x.yielded.get c) (sent : x'.sent c = x.sent c)
  | passed {feed : ChangeFeed} (receiver : x.relay.channel.hasReceiver = true)
      (held : f.held? = some feed)
      (after : x'.relay.forwarder? c = some { f with held? := none })
      (yielded : x'.yielded.get c = x.yielded.get c)
      (sent : x'.sent c = x.sent c ++ [feed].filter (·.table = c))
  | learnt {item : FeedItem} {position : Nat} (held : f.held? = none)
      (read : (x.store.feeds.get f.stream.collection).read f.stream.position =
        some (item, position))
      (after : x'.relay.forwarder? c = afterReading f position item)
      (yielded : x'.yielded.get c = x.yielded.get c ++ [asResult f.stream.collection item])
      (sent : x'.sent c = x.sent c)

theorem next_eq_item {s : MemoryStore} {stream stream' : FeedReader}
    {result : Except StoreError ChangeEvent}
    (h : DocumentStore.next s stream = .item result stream') : ∃ item,
      (s.feeds.get stream.collection).read stream.position = some (item, stream'.position) ∧
      stream' = { stream with position := stream'.position } ∧
      result = asResult stream.collection item := by
  change s.next stream = _ at h
  unfold MemoryStore.next at h
  split at h
  · cases h
  · rename_i item position hread
    obtain ⟨rfl, rfl⟩ := Polled.item.inj h
    exact ⟨item, hread, rfl, rfl⟩

/-- A stream that has no item to give stays where it is. -/
theorem next_eq_pending {s : MemoryStore} {stream stream' : FeedReader}
    (h : DocumentStore.next s stream = .pending stream') : stream' = stream := by
  change s.next stream = _ at h
  unfold MemoryStore.next at h
  split at h
  · exact (Polled.pending.inj h).symm
  · cases h

theorem next_ne_ended (s : MemoryStore) (stream : FeedReader) :
    DocumentStore.next s stream ≠ .ended := by
  change s.next stream ≠ _
  unfold MemoryStore.next
  split <;> simp

theorem yields_eq {f : Forwarder FeedReader} (hf : x.relay.forwarder? c = some f) :
    x.yields c = match f.held?, DocumentStore.next x.store f.stream with
      | none, .item result _ => [result]
      | _, _ => [] := by
  simp only [yields, hf]

theorem act_self (x : Delivery) (c : Collection) : x.step (.act c) = x ∨
    ∃ f, x.relay.forwarder? c = some f ∧ x.Moved c f (x.step (.act c)) := by
  simp only [step]
  split
  · rename_i relay store hact
    obtain ⟨f, hf, hacts⟩ := Relay.acts_of_act hact
    obtain rfl := Relay.collection_of_forwarder? hf
    refine .inr ⟨f, hf, ?_⟩
    cases hacts with
    | lost hheld hreceiver =>
      refine .dropped hreceiver (Relay.forwarder?_remove_self _ _) ?_ rfl
      simp [yields_eq hf, hheld]
    | sent hheld hreceiver hturn hroom =>
      refine .passed hreceiver hheld
        (Relay.forwarder?_update_self (f := { f with held? := none }) hf) ?_ ?_
      · simp [yields_eq hf, hheld]
      · simp only [Delivery.sent, ← List.append_assoc, List.filter_append]
    | ended hheld hnext => exact absurd hnext (next_ne_ended _ _)
    | failed hheld hnext =>
      obtain ⟨item, hread, -, hresult⟩ := next_eq_item hnext
      refine .learnt hheld hread ?_ ?_ rfl
      · cases item with
        | ok event => cases hresult
        | error reason => exact Relay.forwarder?_remove_self _ _
      · simp [yields_eq hf, hheld, hnext, hresult]
    | @skipped event stream hheld hnext hbeat =>
      obtain ⟨item, hread, hstream, hresult⟩ := next_eq_item hnext
      refine .learnt hheld hread ?_ ?_ rfl
      · cases item with
        | error reason => cases hresult
        | ok event =>
          obtain rfl := Except.ok.inj hresult
          refine (Relay.forwarder?_update_self (f := { f with stream }) hf).trans ?_
          rw [afterReading, if_pos hbeat, ← hheld, ← hstream]
      · simp [yields_eq hf, hheld, hnext, hresult]
    | @took event stream hheld hnext hbeat =>
      obtain ⟨item, hread, hstream, hresult⟩ := next_eq_item hnext
      refine .learnt hheld hread ?_ ?_ rfl
      · cases item with
        | error reason => cases hresult
        | ok event =>
          obtain rfl := Except.ok.inj hresult
          refine (Relay.forwarder?_update_self
            (f := { f with stream, held? := some (.ofEvent f.collection event) }) hf).trans ?_
          rw [afterReading, if_neg (by simp [hbeat]), ← hstream]
      · simp [yields_eq hf, hheld, hnext, hresult]
  · exact .inl rfl

theorem act_other (hd : d ≠ c) (htable : ∀ feed ∈ x.held c, feed.table = c) :
    (x.step (.act c)).relay.forwarder? d = x.relay.forwarder? d ∧
      (x.step (.act c)).yielded.get d = x.yielded.get d ∧ (x.step (.act c)).sent d = x.sent d := by
  simp only [step]
  split
  · rename_i relay store hact
    obtain ⟨f, hf, hacts⟩ := Relay.acts_of_act hact
    obtain rfl := Relay.collection_of_forwarder? hf
    refine ⟨?_, ByCollection.get_set_of_ne _ hd _, ?_⟩
    · cases hacts with
      | lost | ended | failed => exact Relay.forwarder?_remove_of_ne _ hd
      | sent | skipped | took => exact Relay.forwarder?_update_of_ne _ hd
    · cases hacts with
      | lost | ended | failed | skipped | took => rfl
      | @sent feed waiting hheld hreceiver hturn hroom =>
        have htable' : feed.table = f.collection := htable feed (by simp [held, hf, hheld])
        simp only [sent, ← List.append_assoc, List.filter_append]
        simp [htable', hd.symm]
  · exact ⟨rfl, rfl, rfl⟩

end Delivery

end TrialBoard
