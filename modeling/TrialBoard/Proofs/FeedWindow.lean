import TrialBoard.Proofs.BrokenStreams
import TrialBoard.Proofs.Usage

/-!
# The feed as a sliding window

`FeedRun` is a store in memory with all that was ever published in it and all the streams that were
opened, dropped or not. Items are published and streams are opened, read and dropped in any order.

A stream is at a place in the history of its collection. The feed keeps the last 256 items of that
history (`Feed.Records`), so a read takes the item at the stream's place, or the oldest one kept if
that one is newer. What a stream took and what it passed over is carried along with its place
(`Subscription.Keeps`); who is told of an item is counted as in `MemoryStore.Counts`.
-/

namespace TrialBoard

/-! ## What a feed keeps of its history -/

namespace Feed

/-- Whether a feed has counted what was published, and kept the end of it. -/
structure Records (f : Feed) (history : List FeedItem) : Prop where
  published : f.published = history.length
  recent : f.recent = history.reverse.take capacity

/-- The place of the oldest item that is kept and that a reader at a place has not read. -/
def oldestUnread (published position : Nat) : Nat := max position (published - capacity)

variable {f : Feed} {history : List FeedItem} {position : Nat}

theorem records_empty : Records {} [] := ⟨rfl, rfl⟩

theorem Records.publish (h : f.Records history) (item : FeedItem) :
    (f.publish item).Records (history ++ [item]) := by
  refine ⟨?_, ?_⟩
  · rw [Feed.publish, h.published, List.length_append, List.length_singleton]
  · have hcapacity : capacity = capacity - 1 + 1 := rfl
    rw [Feed.publish, h.recent, List.reverse_append, List.reverse_singleton, List.singleton_append,
      hcapacity, List.take_succ_cons, List.take_succ_cons, List.take_take]
    rfl

theorem Records.countReaders (h : f.Records history) (readers : Nat) :
    Records { f with readers } history := ⟨h.published, h.recent⟩

/-- An item of the history that is still kept, by its age. -/
theorem Records.recent_getElem? (h : f.Records history) {age : Nat} (hkept : age < capacity)
    (hage : age < history.length) : f.recent[age]? = history[history.length - 1 - age]? := by
  rw [h.recent, List.getElem?_take_of_lt hkept, List.getElem?_reverse hage]

theorem Records.read_of_lt (h : f.Records history) (hlt : position < history.length) :
    ∃ item, history[oldestUnread history.length position]? = some item ∧
      f.read position = some (item, oldestUnread history.length position + 1) := by
  have hcapacity : 0 < capacity := by decide
  have hplace : oldestUnread history.length position < history.length := by
    unfold oldestUnread
    omega
  refine ⟨_, List.getElem?_eq_getElem hplace, ?_⟩
  have hage : min (history.length - 1 - position) (capacity - 1) =
      history.length - 1 - oldestUnread history.length position := by
    unfold oldestUnread
    omega
  have hback : history.length - 1 - (history.length - 1 - oldestUnread history.length position) =
      oldestUnread history.length position := by omega
  have hnext : history.length - (history.length - 1 - oldestUnread history.length position) =
      oldestUnread history.length position + 1 := by omega
  rw [Feed.read, h.published, if_pos hlt]
  simp only [hage]
  rw [h.recent_getElem? (by omega) (by omega), hback, hnext, List.getElem?_eq_getElem hplace]
  rfl

/-- A reader that 256 items wait for loses none of them, and of 257 the first. -/
example : oldestUnread 256 0 = 0 ∧ oldestUnread 257 0 = 1 := by decide

theorem Records.read_of_le (h : f.Records history) (hle : history.length ≤ position) :
    f.read position = none := by
  rw [Feed.read, h.published, if_neg (by omega)]

end Feed

/-! ## What is published -/

namespace MemoryStore

/-- Whether an operation opens no stream and drops none. -/
def Operation.LeavesStreams : Operation → Prop
  | subscribe _ | dropStream _ => False
  | _ => True

/-- The row of a value: the value itself, or one that holds it under `value`. -/
def rowOf : Json → Document
  | .object members => members
  | other => [("value", other)]

/-- What an operation publishes, and in which collection: a row that is written, unless the request
is refused, an event or a failure. -/
def Operation.published? (s : MemoryStore) : Operation → Option (Collection × FeedItem)
  | insert c fresh doc => (s.query c (c, .ok (.inserted (doc.identified fresh).2))).toOption
  | upsert c id doc => (s.query c
      (c, .ok (.written ((s.rows.get c).find? (Document.hasId id)) (doc.withId id)))).toOption
  | put c fresh value => some (c, .ok (.inserted ((rowOf value).identified fresh).2))
  | emit c event => some (c, .ok event)
  | failStream c reason => some (c, .error reason)
  | _ => none

/-- An operation leaves the feeds, or publishes one item. -/
theorem Operation.publishes (op : Operation) (h : op.LeavesStreams) (s : MemoryStore) :
    (op.published? s = none ∧ (op.apply s).feeds = s.feeds) ∨
    ∃ c item rows, op.published? s = some (c, item) ∧
      op.apply s = ({ s with rows }.announce c item).2 := by
  cases op with
  | openSession =>
    refine .inl ⟨rfl, ?_⟩
    simp only [apply, MemoryStore.openSession]
    split <;> rfl
  | insert c fresh doc =>
    simp only [published?, apply, MemoryStore.insert, query]
    split
    · exact .inl ⟨rfl, rfl⟩
    · split
      · exact .inl ⟨rfl, rfl⟩
      · exact .inr ⟨_, _, _, rfl, rfl⟩
  | upsert c id doc =>
    simp only [published?, apply, MemoryStore.upsert, query]
    split
    · exact .inl ⟨rfl, rfl⟩
    · split
      · exact .inl ⟨rfl, rfl⟩
      · exact .inr ⟨_, _, _, rfl, rfl⟩
  | put c fresh value => cases value <;> exact .inr ⟨_, _, _, rfl, rfl⟩
  | emit c event => exact .inr ⟨_, _, s.rows, rfl, rfl⟩
  | failStream c reason => exact .inr ⟨_, _, s.rows, rfl, rfl⟩
  | closeSession | ensure | setUnavailable | failQueries | failSubscriptions | clearFaults =>
    exact .inl ⟨rfl, rfl⟩
  | subscribe c => exact h.elim
  | dropStream stream => exact h.elim

end MemoryStore

/-! ## One stream -/

/-- An item that a stream took: its place among all that were published, how many these were when it
was taken, and how it was given. -/
structure Taken where
  place : Nat
  published : Nat
  result : Except StoreError ChangeEvent

/-- A stream that was opened. -/
structure Subscription where
  reader : FeedReader
  /-- How many items had been published when it was opened. -/
  since : Nat
  taken : List Taken := []
  isLive : Bool := true

namespace Subscription

/-- The place of the first item that comes after what a stream took. -/
def unread (s : Subscription) : Nat := (s.taken.getLast?.map (·.place + 1)).getD s.since

/-- Whether a stream took the item at a place. -/
def HasTaken (s : Subscription) (place : Nat) : Prop := ∃ t ∈ s.taken, t.place = place

/-- Asks a stream for an item, when so many have been published. -/
def read (s : Subscription) (store : MemoryStore) (published : Nat) : Subscription :=
  match DocumentStore.next store s.reader with
  | .item result reader =>
    { s with reader, taken := s.taken ++ [⟨reader.position - 1, published, result⟩] }
  | .pending reader => { s with reader }
  | .ended => s

/-- What a stream took of the history of its collection. -/
structure Follows (s : Subscription) (history : List FeedItem) : Prop where
  /-- It took items in the order in which they were published, and none twice. -/
  inOrder : s.taken.Pairwise (·.place < ·.place)
  /-- It took none that was there when it was opened. -/
  since : ∀ t ∈ s.taken, s.since ≤ t.place
  /-- It gave each item as it was published. -/
  items : ∀ t ∈ s.taken,
    (history[t.place]?).map (Delivery.asResult s.reader.collection) = some t.result
  /-- When it took an item past one that it never took, 256 others had come after that one. -/
  passedOver : ∀ t ∈ s.taken, ∀ place, s.since ≤ place → place < t.place →
    s.HasTaken place ∨ place + Feed.capacity < t.published

/-- What holds of a stream at any time: it is right after what it took, and every item between its
opening and its place was taken or has gone out of the feed. -/
structure Keeps (s : Subscription) (history : List FeedItem) : Prop extends s.Follows history where
  position : s.reader.position = s.unread
  starts : s.since ≤ s.reader.position
  reached : s.reader.position ≤ history.length
  below : ∀ t ∈ s.taken, t.place < s.reader.position
  passed : ∀ place, s.since ≤ place → place < s.reader.position →
    s.HasTaken place ∨ place + Feed.capacity < history.length

variable {s : Subscription} {history : List FeedItem} {store : MemoryStore}

/-- A stream that was just opened. -/
theorem keeps_opened (c : Collection) (history : List FeedItem) :
    Keeps { reader := ⟨c, history.length⟩, since := history.length } history where
  inOrder := .nil
  since t ht := by cases ht
  items t ht := by cases ht
  passedOver t ht := by cases ht
  position := rfl
  starts := Nat.le_refl _
  reached := Nat.le_refl _
  below t ht := by cases ht
  passed place hsince hbelow := absurd hbelow (Nat.not_lt.2 hsince)

theorem Keeps.drop (h : s.Keeps history) : Keeps { s with isLive := false } history where
  inOrder := h.inOrder
  since := h.since
  items := h.items
  passedOver := h.passedOver
  position := h.position
  starts := h.starts
  reached := h.reached
  below := h.below
  passed := h.passed

/-- What a stream took is not touched by what is published next. -/
theorem Keeps.publish (h : s.Keeps history) (item : FeedItem) : s.Keeps (history ++ [item]) where
  inOrder := h.inOrder
  since := h.since
  items t ht := by
    have hplace : t.place < history.length := Nat.lt_of_lt_of_le (h.below t ht) h.reached
    rw [List.getElem?_append_left hplace]
    exact h.items t ht
  passedOver := h.passedOver
  position := h.position
  starts := h.starts
  reached := Nat.le_trans h.reached (by simp)
  below := h.below
  passed place hsince hbelow := by
    rcases h.passed place hsince hbelow with htaken | hgone
    · exact .inl htaken
    · refine .inr (Nat.lt_of_lt_of_le hgone ?_)
      simp

/-! ### Reading -/

theorem next_of_lt (hfeed : (store.feeds.get s.reader.collection).Records history)
    (hlt : s.reader.position < history.length) :
    ∃ item, history[Feed.oldestUnread history.length s.reader.position]? = some item ∧
      DocumentStore.next store s.reader =
        .item (Delivery.asResult s.reader.collection item)
          { s.reader with position := Feed.oldestUnread history.length s.reader.position + 1 } := by
  obtain ⟨item, hitem, hread⟩ := hfeed.read_of_lt hlt
  refine ⟨item, hitem, ?_⟩
  change store.next s.reader = _
  rw [MemoryStore.next, hread]
  rfl

theorem next_of_le (hfeed : (store.feeds.get s.reader.collection).Records history)
    (hle : history.length ≤ s.reader.position) :
    DocumentStore.next store s.reader = .pending s.reader := by
  change store.next s.reader = _
  rw [MemoryStore.next, hfeed.read_of_le hle]

theorem collection_read (s : Subscription) (store : MemoryStore) (published : Nat) :
    (s.read store published).reader.collection = s.reader.collection := by
  unfold read
  cases hnext : DocumentStore.next store s.reader with
  | item result reader =>
    obtain ⟨-, -, heq, -⟩ := Delivery.next_eq_item hnext
    rw [heq]
  | pending reader => rw [Delivery.next_eq_pending hnext]
  | ended => rfl

theorem isLive_read (s : Subscription) (store : MemoryStore) (published : Nat) :
    (s.read store published).isLive = s.isLive := by
  unfold read
  split <;> rfl

/-- A stream after it took the item at a place. -/
def take (s : Subscription) (place published : Nat) (result : Except StoreError ChangeEvent) :
    Subscription :=
  { s with
    reader := { s.reader with position := place + 1 }
    taken := s.taken ++ [⟨place, published, result⟩] }

theorem forall_mem_take {p : Taken → Prop} {place published : Nat}
    {result : Except StoreError ChangeEvent} (hold : ∀ t ∈ s.taken, p t)
    (hnew : p ⟨place, published, result⟩) : ∀ t ∈ (s.take place published result).taken, p t := by
  intro t ht
  rcases List.mem_append.1 ht with hbefore | hlast
  · exact hold t hbefore
  · rw [List.mem_singleton.1 hlast]
    exact hnew

theorem HasTaken.take {p : Nat} (h : s.HasTaken p) (place published : Nat)
    (result : Except StoreError ChangeEvent) : (s.take place published result).HasTaken p := by
  obtain ⟨t, ht, hp⟩ := h
  exact ⟨t, List.mem_append_left _ ht, hp⟩

/-- A stream may take any item at its place or after it, if all it passes over has gone out of the
feed. -/
theorem Keeps.take (h : s.Keeps history) {place : Nat} {item : FeedItem}
    (hitem : history[place]? = some item) (hplace : s.reader.position ≤ place)
    (hgone : ∀ p, s.reader.position ≤ p → p < place → p + Feed.capacity < history.length) :
    (s.take place history.length (Delivery.asResult s.reader.collection item)).Keeps history := by
  have hlt : place < history.length := (List.getElem?_eq_some_iff.1 hitem).1
  have hsince : s.since ≤ place := Nat.le_trans h.starts hplace
  have hbelow : ∀ t ∈ s.taken, t.place < place := fun t ht =>
    Nat.lt_of_lt_of_le (h.below t ht) hplace
  -- What the stream had not taken before its place was gone already when it came there.
  have hpast : ∀ p, s.since ≤ p → p < place →
      s.HasTaken p ∨ p + Feed.capacity < history.length := by
    intro p hp hbefore
    rcases Nat.lt_or_ge p s.reader.position with hpassed | hbeyond
    · exact h.passed p hp hpassed
    · exact .inr (hgone p hbeyond hbefore)
  refine ⟨⟨?inOrder, ?since, ?items, ?passedOver⟩, ?position, Nat.le_succ_of_le hsince, hlt,
    ?below, ?passed⟩
  case inOrder =>
    refine List.pairwise_append.2 ⟨h.inOrder, List.pairwise_singleton _ _, fun t ht u hu => ?_⟩
    rw [List.mem_singleton.1 hu]
    exact hbelow t ht
  case since => exact forall_mem_take h.since hsince
  case items => exact forall_mem_take h.items (by rw [hitem]; rfl)
  case passedOver =>
    refine forall_mem_take (fun t ht p hp hbefore => ?_) fun p hp hbefore => ?_
    · exact (h.passedOver t ht p hp hbefore).imp_left fun htaken => htaken.take ..
    · exact (hpast p hp hbefore).imp_left fun htaken => htaken.take ..
  case position =>
    rw [unread, Subscription.take, List.getLast?_concat]
    rfl
  case below =>
    exact forall_mem_take (fun t ht => Nat.lt_succ_of_lt (hbelow t ht)) (Nat.lt_succ_self place)
  case passed =>
    intro p hp hnext
    rcases Nat.lt_succ_iff_lt_or_eq.1 hnext with hbefore | rfl
    · exact (hpast p hp hbefore).imp_left fun htaken => htaken.take ..
    · exact .inl ⟨_, List.mem_append_right _ List.mem_cons_self, rfl⟩

theorem Keeps.read (h : s.Keeps history)
    (hfeed : (store.feeds.get s.reader.collection).Records history) :
    (s.read store history.length).Keeps history := by
  rcases Nat.lt_or_ge s.reader.position history.length with hlt | hle
  · obtain ⟨item, hitem, hnext⟩ := next_of_lt hfeed hlt
    rw [Subscription.read, hnext]
    refine h.take hitem (Nat.le_max_left _ _) fun p hp hbefore => ?_
    unfold Feed.oldestUnread at hbefore
    omega
  · rw [Subscription.read, next_of_le hfeed hle]
    exact h

end Subscription

/-! ## Runs -/

/-- A store in memory with all that was published in each collection, and every stream that was
opened. -/
structure FeedRun where
  store : MemoryStore := {}
  history : ByCollection (List FeedItem) := .ofFn fun _ => []
  streams : List Subscription := []

namespace FeedRun

/-- What can happen. -/
inductive Step where
  /-- Anything is done to the store, whether it publishes or not. -/
  | operate (op : MemoryStore.Operation) (h : op.LeavesStreams)
  | subscribe (c : Collection)
  /-- A stream is asked for an item. -/
  | read (n : Nat)
  | drop (n : Nat)

/-- How many items were published in a collection. -/
def published (x : FeedRun) (c : Collection) : Nat := (x.history.get c).length

/-- A stream that was not dropped. -/
def live? (x : FeedRun) (n : Nat) : Option Subscription := x.streams[n]?.filter (·.isLive)

/-- The collections of those streams that were not dropped. -/
def collectionsOf (streams : List Subscription) : List Collection :=
  (streams.filter (·.isLive)).map (·.reader.collection)

/-- The collections that streams are held of. -/
def held (x : FeedRun) : List Collection := collectionsOf x.streams

/-- The history after an item was published, if one was. -/
def record (history : ByCollection (List FeedItem)) :
    Option (Collection × FeedItem) → ByCollection (List FeedItem)
  | none => history
  | some (c, item) => history.set c (history.get c ++ [item])

/-- One step. What is asked of a store that refuses it, or of a stream that was dropped, changes
nothing. -/
def step (x : FeedRun) : Step → FeedRun
  | .operate op _ =>
    { x with store := op.apply x.store, history := record x.history (op.published? x.store) }
  | .subscribe c =>
    match x.store.subscribe c with
    | .ok (reader, store) =>
      { x with store, streams := x.streams ++ [{ reader, since := x.published c }] }
    | .error _ => x
  | .read n =>
    match x.live? n with
    | some s =>
      { x with streams := x.streams.set n (s.read x.store (x.published s.reader.collection)) }
    | none => x
  | .drop n =>
    match x.live? n with
    | some s =>
      { x with store := DocumentStore.dropStream x.store s.reader
               streams := x.streams.set n { s with isLive := false } }
    | none => x

/-- Steps one after the other. -/
def run (x : FeedRun) (steps : List Step) : FeedRun := steps.foldl step x

/-- Whether the feeds are windows that slide over what is published. -/
structure Slides (x : FeedRun) : Prop where
  follows : ∀ s ∈ x.streams, s.Follows (x.history.get s.reader.collection)
  /-- A stream that has not taken all there is gives the oldest item that is kept and that it has
  not taken. -/
  gives : ∀ s ∈ x.streams, s.unread < x.published s.reader.collection →
    let place := Feed.oldestUnread (x.published s.reader.collection) s.unread
    ∃ item, (x.history.get s.reader.collection)[place]? = some item ∧
      DocumentStore.next x.store s.reader =
        .item (Delivery.asResult s.reader.collection item) { s.reader with position := place + 1 }
  waits : ∀ s ∈ x.streams, x.published s.reader.collection ≤ s.unread →
    DocumentStore.next x.store s.reader = .pending s.reader
  /-- Whatever is published next reaches the streams of its collection that were not dropped. -/
  reaches : ∀ op : MemoryStore.Operation, op.LeavesStreams →
    ∀ c item, op.published? x.store = some (c, item) →
      ∃ rows, op.apply x.store = ({ x.store with rows }.announce c item).2 ∧
        ({ x.store with rows }.announce c item).1 = x.held.count c
  /-- Those who publish an event or a failure are told how many these are. -/
  answers : ∀ c, (∀ event, (x.store.emit c event).1 = x.held.count c) ∧
    ∀ reason, (x.store.failStream c reason).1 = x.held.count c

/-- What holds at any time. -/
structure Consistent (x : FeedRun) : Prop where
  feeds : ∀ c, (x.store.feeds.get c).Records (x.history.get c)
  streams : ∀ s ∈ x.streams, s.Keeps (x.history.get s.reader.collection)
  counts : x.store.Counts x.held

variable {x : FeedRun} {n : Nat} {s : Subscription}

theorem consistent_new : Consistent {} where
  feeds c := by cases c <;> exact Feed.records_empty
  streams s hs := by cases hs
  counts c := by cases c <;> rfl

theorem collectionsOf_append (before after : List Subscription) :
    collectionsOf (before ++ after) = collectionsOf before ++ collectionsOf after := by
  rw [collectionsOf, List.filter_append, List.map_append]
  rfl

theorem collectionsOf_cons (s : Subscription) (streams : List Subscription) :
    collectionsOf (s :: streams) =
      if s.isLive then s.reader.collection :: collectionsOf streams else collectionsOf streams := by
  rw [collectionsOf, List.filter_cons]
  split <;> rfl

/-- The streams before a live one, and those after it. -/
theorem exists_around (h : x.live? n = some s) (s' : Subscription) : s.isLive = true ∧
    ∃ before after, x.streams = before ++ s :: after ∧
      x.streams.set n s' = before ++ s' :: after := by
  obtain ⟨hget, hlive⟩ := Option.filter_eq_some_iff.1 h
  obtain ⟨hn, rfl⟩ := List.getElem?_eq_some_iff.1 hget
  obtain ⟨before, after, hstreams, -, hset⟩ := @List.exists_of_set _ n s' _ hn
  exact ⟨hlive, before, after, hstreams, hset⟩

/-- An item that is published goes to the end of one history and into one feed. -/
theorem Consistent.publish (h : x.Consistent) (rows : ByCollection (List Document)) (c : Collection)
    (item : FeedItem) :
    Consistent { x with store := { x.store with rows }.publish c item
                        history := x.history.set c (x.history.get c ++ [item]) } := by
  refine ⟨fun d => ?_, fun s hs => ?_, fun d => Eq.trans ?_ (h.counts d)⟩
  · change ((x.store.feeds.set c _).get d).Records ((x.history.set c _).get d)
    by_cases hd : d = c
    · rw [hd, ByCollection.get_set_self, ByCollection.get_set_self]
      exact (h.feeds c).publish item
    · rw [ByCollection.get_set_of_ne _ hd, ByCollection.get_set_of_ne _ hd]
      exact h.feeds d
  · change s.Keeps ((x.history.set c _).get s.reader.collection)
    by_cases hd : s.reader.collection = c
    · rw [hd, ByCollection.get_set_self, ← hd]
      exact (h.streams s hs).publish item
    · rw [ByCollection.get_set_of_ne _ hd]
      exact h.streams s hs
  · change ((x.store.feeds.set c _).get d).readers = _
    by_cases hd : d = c
    · rw [hd, ByCollection.get_set_self]
      rfl
    · rw [ByCollection.get_set_of_ne _ hd]

theorem consistent_operate (h : x.Consistent) (op : MemoryStore.Operation)
    (hop : op.LeavesStreams) : (x.step (.operate op hop)).Consistent := by
  rcases op.publishes hop x.store with ⟨hnone, hfeeds⟩ | ⟨c, item, rows, hsome, happly⟩
  · simp only [step, hnone, record]
    refine ⟨fun d => ?_, h.streams, fun d => ?_⟩
    · rw [hfeeds]
      exact h.feeds d
    · rw [hfeeds]
      exact h.counts d
  · simp only [step, hsome, record, happly]
    exact h.publish rows c item

/-- Readers that are counted anew leave what the feeds keep. -/
theorem Consistent.countReaders (h : x.Consistent) (c : Collection) (f : Nat → Nat)
    (d : Collection) :
    ((x.store.countReaders c f).feeds.get d).Records (x.history.get d) := by
  obtain ⟨readers, hreaders⟩ := Delivery.feeds_countReaders x.store c d f
  rw [hreaders]
  exact (h.feeds d).countReaders readers

theorem consistent_subscribe (h : x.Consistent) (c : Collection) :
    (x.step (.subscribe c)).Consistent := by
  simp only [step, Delivery.subscribe_eq]
  split
  · rename_i reader store hok
    split at hok
    · cases hok
    · obtain ⟨rfl, rfl⟩ := Prod.mk.inj (Except.ok.inj hok)
      refine ⟨h.countReaders c _, fun s hs => ?_, (h.counts.take c).perm ?_⟩
      · rcases List.mem_append.1 hs with hold | hnew
        · exact h.streams s hold
        · rw [List.mem_singleton.1 hnew, (h.feeds c).published]
          exact Subscription.keeps_opened c (x.history.get c)
      · change (c :: x.held).Perm (collectionsOf (x.streams ++ [_]))
        rw [collectionsOf_append]
        exact (List.perm_append_singleton c _).symm
  · exact h

theorem consistent_read (h : x.Consistent) (n : Nat) : (x.step (.read n)).Consistent := by
  simp only [step]
  split
  · rename_i s hs
    obtain ⟨hlive, before, after, hstreams, hset⟩ :=
      exists_around hs (s.read x.store (x.published s.reader.collection))
    have hcollection := s.collection_read x.store (x.published s.reader.collection)
    have hmem : s ∈ x.streams := hstreams ▸ List.mem_append_right _ List.mem_cons_self
    refine ⟨h.feeds, fun s' hs' => ?_, ?_⟩
    · rcases List.mem_or_eq_of_mem_set hs' with hold | rfl
      · exact h.streams s' hold
      · rw [hcollection]
        exact (h.streams s hmem).read (h.feeds s.reader.collection)
    · have hsame : collectionsOf (x.streams.set n
          (s.read x.store (x.published s.reader.collection))) = x.held := by
        rw [hset, held, hstreams]
        simp only [collectionsOf_append, collectionsOf_cons, Subscription.isLive_read, hlive,
          hcollection]
      rw [held, hsame]
      exact h.counts
  · exact h

theorem consistent_drop (h : x.Consistent) (n : Nat) : (x.step (.drop n)).Consistent := by
  simp only [step]
  split
  · rename_i s hs
    obtain ⟨hlive, before, after, hstreams, hset⟩ := exists_around hs { s with isLive := false }
    have hmem : s ∈ x.streams := hstreams ▸ List.mem_append_right _ List.mem_cons_self
    refine ⟨h.countReaders _ _, fun s' hs' => ?_, (h.counts.perm ?_).giveBack⟩
    · rcases List.mem_or_eq_of_mem_set hs' with hold | rfl
      · exact h.streams s' hold
      · exact (h.streams s hmem).drop
    · change (collectionsOf x.streams).Perm (_ :: collectionsOf (x.streams.set n _))
      rw [hset, hstreams, collectionsOf_append, collectionsOf_append, collectionsOf_cons,
        collectionsOf_cons, hlive]
      exact List.perm_middle
  · exact h

theorem consistent_step (h : x.Consistent) (step : Step) : (x.step step).Consistent := by
  cases step with
  | operate op hop => exact consistent_operate h op hop
  | subscribe c => exact consistent_subscribe h c
  | read n => exact consistent_read h n
  | drop n => exact consistent_drop h n

theorem consistent_run (h : x.Consistent) (steps : List Step) : (x.run steps).Consistent := by
  induction steps generalizing x with
  | nil => exact h
  | cons step steps ih => exact ih (consistent_step h step)

theorem Consistent.slides (h : x.Consistent) : x.Slides where
  follows s hs := (h.streams s hs).toFollows
  gives s hs hlt := by
    have hposition := (h.streams s hs).position
    rw [← hposition] at hlt ⊢
    exact Subscription.next_of_lt (h.feeds _) hlt
  waits s hs hle := by
    rw [← (h.streams s hs).position] at hle
    exact Subscription.next_of_le (h.feeds _) hle
  reaches op hop c item hsome := by
    rcases op.publishes hop x.store with ⟨hnone, -⟩ | ⟨d, item', rows, hsome', happly⟩
    · rw [hnone] at hsome
      cases hsome
    · rw [hsome'] at hsome
      obtain ⟨rfl, rfl⟩ := Prod.mk.inj (Option.some.inj hsome)
      exact ⟨rows, happly, h.counts d⟩
  answers c := ⟨fun _ => h.counts c, fun _ => h.counts c⟩

/-- In every run over a store in memory that begins empty, whatever is published, and whoever opens,
reads and drops streams, the feeds are windows that slide over what is published: a stream takes
what comes after its opening in order, it passes over an item only when 256 others have come after
that one, and each item reaches just the streams of its collection that were not dropped. -/
theorem feeds_slide (steps : List Step) : (run {} steps).Slides :=
  (consistent_run consistent_new steps).slides

/-- A failure is published between two subscriptions: the first stream takes it, the second has
nothing to take, and it alone is told of a heartbeat once the first was dropped. -/
example :
    let x := run {} [.subscribe .tests, .operate (.failStream .tests "lost") trivial,
      .subscribe .tests, .read 0, .read 1, .drop 0]
    x.streams.map (fun s => s.taken.map (·.place)) = [[0], []] ∧
    (x.store.emit .tests ⟨none, none⟩).1 = 1 := by decide

end FeedRun

end TrialBoard
