import TrialBoard.Proofs.Extraction
import TrialBoard.Proofs.FeedReading
import TrialBoard.Proofs.Isolation
import TrialBoard.Proofs.ReadingBack
import TrialBoard.Store.Memory

/-!
# The two stores agree

A store in memory and a store in a database that begin empty give the same answers to the same
requests. `Client.Agree` relates a client of the one to a client of the other: both hold the same
rows, and each stream of the one has the same events before it as its partner. Every request keeps
this and is answered alike.

It takes that no row is inserted under an id that is taken, which only the database refuses; that
documents read back; that rows are selected by a plain key and a value whose equality the database
decides as JSON does; and that no stream falls so far behind that the store in memory drops items.
-/

namespace TrialBoard

open Document (hasId)
open ExperimentView (upsertRow)

/-! ## Writes to the store in memory -/

namespace MemoryStore

variable {s : MemoryStore} {c : Collection}

/-- The store after a write that no fault stops. -/
def written (s : MemoryStore) (w : Write) : MemoryStore := s.replace w.collection w.id w.row

theorem rows_written (s : MemoryStore) (w : Write) :
    (s.written w).rows =
      s.rows.set w.collection (upsertRow w.row (s.rows.get w.collection)) := by
  rw [upsertRow_of_id w.id?_row]
  rfl

theorem feeds_written_self (s : MemoryStore) (w : Write) :
    (s.written w).feeds.get w.collection = (s.feeds.get w.collection).publish
      (.ok (.written ((s.rows.get w.collection).find? (hasId w.id)) w.row)) :=
  ByCollection.get_set_self ..

theorem feeds_written_of_ne (s : MemoryStore) {w : Write} (h : c ≠ w.collection) :
    (s.written w).feeds.get c = s.feeds.get c :=
  ByCollection.get_set_of_ne _ h _

/-- A row whose id is not taken comes to the end. -/
theorem add_eq_replace {id : String} (h : (s.rows.get c).find? (hasId id) = none)
    (row : Document) : s.add c row = s.replace c id row := by
  rw [add, replace, replaceOrAppend_of_find?_eq_none h, h]
  rfl

theorem query_of_faultless {α : Type} (h : s.faults = {}) (c : Collection) (answer : α) :
    s.query c answer = .ok answer := by simp [query, h]

theorem insert_of_faultless (h : s.faults = {}) {fresh : String} {doc : Document}
    (hfree : (Write.insert c fresh doc).IsFree s.rows) :
    s.insert c fresh doc =
      .ok ((doc.identified fresh).1, s.written (.insert c fresh doc)) := by
  rw [insert, query_of_faultless h, add_eq_replace hfree]
  rfl

theorem upsert_of_faultless (h : s.faults = {}) (id : String) (doc : Document) :
    s.upsert c id doc = .ok (s.written (.upsert c id doc)) :=
  query_of_faultless h c _

theorem subscribe_of_faultless (h : s.faults = {}) (c : Collection) :
    s.subscribe c = .ok (⟨c, (s.feeds.get c).published⟩, s.countReaders c (· + 1)) := by
  simp [subscribe, h]

end MemoryStore

/-! ## Streams side by side -/

/-- What is logged of a write tells the event that is published of it. -/
theorem TableStore.readChange_written {old? : Option Document} {row : Document}
    (hold : ∀ old ∈ old?, old.ReadsBack) (hrow : row.ReadsBack) (c : Collection) :
    Tail.readChange c (old?.map body) (some (body row)) = .ok (.written old? row) := by
  rw [Tail.readChange_eq_ok_iff]
  refine ⟨?_, readBody_of_readsBack c hrow⟩
  cases old? with
  | none => rfl
  | some old => exact readBody_of_readsBack c (hold old rfl)

/-- Whether a reader of a feed and a tail of a log have the same events before them. -/
structure SameStream (feed : Feed) (c : Collection) (table : String) (log : ChangeLog)
    (reader : FeedReader) (tail : Tail) : Prop where
  collection : reader.collection = c
  serves : feed.Serves reader.position
  follows : tail.Follows log c table
  isOpen : tail.hasEnded = false
  events : ∃ events : List ChangeEvent, feed.ahead reader.position = events.map .ok ∧
    tail.upcoming log = events.map .ok

namespace SameStream

variable {feed : Feed} {c : Collection} {table : String} {log : ChangeLog} {reader : FeedReader}
  {tail : Tail}

/-- A change is published in the feed and logged for the table. -/
theorem publish (h : SameStream feed c table log reader tail)
    (hkeeps : feed.published - reader.position < Feed.capacity) {event : ChangeEvent}
    {old? new? : Option String} (hread : Tail.readChange c old? new? = .ok event) :
    SameStream (feed.publish (.ok event)) c table (log.append table old? new?) reader tail := by
  obtain ⟨events, hahead, hupcoming⟩ := h.events
  refine ⟨h.collection, Feed.serves_publish h.serves _, h.follows.append table old? new?, h.isOpen,
    events ++ [event], ?_, ?_⟩
  · rw [Feed.ahead_publish h.serves.reached _ hkeeps, hahead, List.map_append]
    rfl
  · rw [Tail.upcoming_append h.follows, if_neg (by rw [h.isOpen]; exact Bool.false_ne_true),
      hupcoming, Tail.told, if_pos rfl, hread,
      upToFailure_of_not_hasFailure (not_hasFailure_map_ok events), List.map_append]
    rfl

/-- A change is logged for another table. -/
theorem append_of_ne (h : SameStream feed c table log reader tail) {other : String}
    (hne : other ≠ table) (old? new? : Option String) :
    SameStream feed c table (log.append other old? new?) reader tail := by
  obtain ⟨events, hahead, hupcoming⟩ := h.events
  refine ⟨h.collection, h.serves, h.follows.append other old? new?, h.isOpen, events, hahead, ?_⟩
  rw [Tail.upcoming_append_of_ne h.follows hne, hupcoming]

/-- How many readers there are makes no difference to any of them. -/
theorem readers (h : SameStream feed c table log reader tail) (n : Nat) :
    SameStream { feed with readers := n } c table log reader tail :=
  ⟨h.collection, ⟨h.serves.reached, h.serves.kept⟩, h.follows, h.isOpen, h.events⟩

theorem ofSubscription (feed : Feed) (c : Collection) (table : String) (log : ChangeLog) :
    SameStream feed c table log ⟨c, feed.published⟩
      { collection := c, table, cursor := log.lastOf table } :=
  ⟨rfl, feed.serves_published, ⟨rfl, rfl, log.lastOf_le table⟩, rfl, [], feed.ahead_published,
    Tail.upcoming_lastOf log c table⟩

/-- A reader and a tail with the same events before them are answered alike. -/
theorem next (h : SameStream feed c table log reader tail) {s : MemoryStore}
    (hfeed : s.feeds.get c = feed) {db : Database} (hlog : db.log? = some log) :
    (∃ tail', s.next reader = .pending reader ∧ tail.next db = .pending tail' ∧
      SameStream feed c table log reader tail') ∨
    ∃ event reader' tail', s.next reader = .item (.ok event) reader' ∧
      tail.next db = .item (.ok event) tail' ∧ SameStream feed c table log reader' tail' := by
  obtain ⟨events, hahead, hupcoming⟩ := h.events
  rw [MemoryStore.next, h.collection, hfeed]
  cases events with
  | nil =>
    obtain ⟨tail', hnext, hfollows, hnil, hopen⟩ :=
      Tail.next_of_upcoming_eq_nil hlog h.follows h.isOpen hupcoming
    rw [Feed.read_of_ahead_eq_nil hahead]
    exact .inl ⟨tail', rfl, hnext, h.collection, h.serves, hfollows, hopen, [], hahead, hnil⟩
  | cons event events =>
    obtain ⟨position, hread, hserves, hahead'⟩ := Feed.read_of_ahead_eq_cons h.serves hahead
    obtain ⟨tail', hnext, hfollows, hupcoming', hopen⟩ :=
      Tail.next_of_upcoming_eq_ok hlog h.follows hupcoming
    rw [hread]
    exact .inr ⟨event, ⟨c, position⟩, tail', rfl, hnext, rfl, hserves, hfollows, hopen, events,
      hahead', hupcoming'⟩

end SameStream

/-! ## Two clients -/

namespace Client

open Extract (IsPlain IsComparable)

variable {x : Client MemoryStore FeedReader} {y : Client TableStore Tail} {c : Collection}
  {request : Request}

/-- Whether a client of a store in memory and one of a store in a database hold the same rows, and
have the same events before their streams. -/
structure Agree (x : Client MemoryStore FeedReader) (y : Client TableStore Tail) : Prop where
  isFaultless : x.store.faults = {}
  isReady : y.store.IsReady x.store.rows
  canReplace : TableStore.CanReplace y.store.names
  streams : ∃ log, y.store.database.log? = some log ∧ ∀ c,
    List.Forall₂ (SameStream (x.store.feeds.get c) c (y.store.tableName c) log)
      (x.streams.get c) (y.streams.get c)

/-- Whether no stream has more items before it than the store in memory keeps. -/
def KeepsUp (x : Client MemoryStore FeedReader) : Prop :=
  ∀ c, ∀ reader ∈ x.streams.get c,
    (x.store.feeds.get c).published - reader.position ≤ Feed.capacity

/-- Whether a key is made of letters, digits and underscores. -/
def IsFieldName (key : String) : Prop := ∀ c ∈ key.toList, c.isAlphanum = true ∨ c = '_'

theorem IsFieldName.isPlain {key : String} (h : IsFieldName key) : IsPlain key := by
  intro c hc
  refine ⟨?_, ?_, ?_⟩ <;> rintro rfl <;> exact absurd (h _ hc) (by decide)

/-- Whether a request can be made of both stores. -/
def Permits (x : Client MemoryStore FeedReader) : Request → Prop
  | .filterEq _ key value => IsFieldName key ∧ IsComparable value
  | .insert c fresh doc => doc.ReadsBack ∧ (Write.insert c fresh doc).IsFree x.store.rows
  | .upsert _ _ doc => doc.ReadsBack
  | _ => True

/-- Whether each of the requests can be made of both stores when its turn comes, and the streams
keep up. -/
def Allows (x : Client MemoryStore FeedReader) : List Request → Prop
  | [] => True
  | request :: requests =>
    x.Permits request ∧ (x.perform request).2.KeepsUp ∧ (x.perform request).2.Allows requests

/-! ### Reads -/

theorem scan_agree (h : Agree x y) (c : Collection) : x.store.scan c = y.store.scan c := by
  rw [MemoryStore.scan, MemoryStore.query_of_faultless h.isFaultless,
    TableStore.scan_of_holds h.isReady.holds]

theorem get_agree (h : Agree x y) (c : Collection) (id : String) :
    x.store.get c id = y.store.get c id := by
  rw [MemoryStore.get, MemoryStore.query_of_faultless h.isFaultless,
    TableStore.get_of_holds h.isReady.holds]

theorem filterEq_agree (h : Agree x y) (c : Collection) {key : String} {value : Json}
    (hkey : IsFieldName key) (hvalue : IsComparable value) :
    x.store.filterEq c key value = y.store.filterEq c key value := by
  rw [MemoryStore.filterEq, MemoryStore.query_of_faultless h.isFaultless,
    TableStore.filterEq_eq h.isReady.holds hkey.isPlain hvalue.isNotReal]

/-! ### Writes -/

/-- A row that is written to both stores is held by both and told by both. -/
theorem Agree.write (h : Agree x y) {w : Write} (hfree : w.IsFree x.store.rows)
    (hrow : w.row.ReadsBack) (hkeeps : KeepsUp { x with store := x.store.written w }) :
    ∃ s', y.store.write w = .ok s' ∧
      Agree { x with store := x.store.written w } { y with store := s' } := by
  obtain ⟨s', hwrite⟩ := h.isReady.exists_write hfree
  obtain ⟨log, hlog, hstreams⟩ := h.streams
  obtain ⟨hnames, hlog'⟩ := TableStore.log_of_write h.isReady.holds hlog hwrite
  have hname : ∀ c, s'.tableName c = y.store.tableName c := fun c => by
    rw [TableStore.tableName, TableStore.tableName, hnames]
  have hready : s'.IsReady (x.store.written w).rows := by
    rw [MemoryStore.rows_written, ← TableStore.rowsAfter_of_canReplace h.canReplace]
    exact (h.isReady.write hrow hwrite).1
  refine ⟨s', hwrite, h.isFaultless, hready, hnames ▸ h.canReplace, _, hlog', fun c => ?_⟩
  change List.Forall₂ (SameStream ((x.store.written w).feeds.get c) c (s'.tableName c) _) _ _
  rw [hname]
  by_cases hc : c = w.collection
  · subst hc
    have hold : ∀ old ∈ (x.store.rows.get w.collection).find? (hasId w.id), old.ReadsBack :=
      fun old hold => h.isReady.holds.readable _ old (List.mem_of_find?_eq_some hold)
    have hkept : ∀ reader ∈ x.streams.get w.collection,
        (x.store.feeds.get w.collection).published + 1 - reader.position ≤ Feed.capacity := by
      intro reader hreader
      have hbehind := hkeeps w.collection reader hreader
      rwa [MemoryStore.feeds_written_self] at hbehind
    rw [MemoryStore.feeds_written_self]
    refine ((List.forall₂_and_left _ _).2 ⟨hkept, hstreams w.collection⟩).imp
      fun reader tail hpair => ?_
    obtain ⟨hbehind, hsame⟩ := hpair
    have hreached := hsame.serves.reached
    exact hsame.publish (by omega) (TableStore.readChange_written hold hrow w.collection)
  · have hother : y.store.tableName w.collection ≠ y.store.tableName c := fun heq =>
      hc (h.isReady.isNamed c w.collection (Database.sameName_iff.2 (congrArg _ heq.symm)))
    rw [MemoryStore.feeds_written_of_ne _ hc]
    exact (hstreams c).imp fun reader tail hsame => hsame.append_of_ne hother _ _

theorem perform_insert_of_faultless (h : x.store.faults = {}) {fresh : String} {doc : Document}
    (hfree : (Write.insert c fresh doc).IsFree x.store.rows) :
    x.perform (.insert c fresh doc) = (.inserted (.ok (doc.identified fresh).1),
      { x with store := x.store.written (.insert c fresh doc) }) := by
  have hx : DocumentStore.insert x.store c fresh doc = x.store.insert c fresh doc := rfl
  rw [perform, hx, MemoryStore.insert_of_faultless h hfree]

theorem perform_upsert_of_faultless (h : x.store.faults = {}) (id : String) (doc : Document) :
    x.perform (.upsert c id doc) = (.upserted (.ok ()),
      { x with store := x.store.written (.upsert c id doc) }) := by
  have hx : DocumentStore.upsert x.store c id doc = x.store.upsert c id doc := rfl
  rw [perform, hx, MemoryStore.upsert_of_faultless h]

theorem insert_agree (h : Agree x y) {fresh : String} {doc : Document} (hdoc : doc.ReadsBack)
    (hfree : (Write.insert c fresh doc).IsFree x.store.rows)
    (hkeeps : (x.perform (.insert c fresh doc)).2.KeepsUp) :
    (x.perform (.insert c fresh doc)).1 = (y.perform (.insert c fresh doc)).1 ∧
      Agree (x.perform (.insert c fresh doc)).2 (y.perform (.insert c fresh doc)).2 := by
  rw [perform_insert_of_faultless h.isFaultless hfree] at hkeeps ⊢
  obtain ⟨s', hwrite, hagree⟩ := h.write hfree (hdoc.identified fresh) hkeeps
  have hy : DocumentStore.insert y.store c fresh doc = .ok ((doc.identified fresh).1, s') := by
    change y.store.insert c fresh doc = _
    rw [TableStore.insert_eq_write, hwrite]
    rfl
  rw [perform, hy]
  exact ⟨rfl, hagree⟩

theorem upsert_agree (h : Agree x y) {id : String} {doc : Document} (hdoc : doc.ReadsBack)
    (hkeeps : (x.perform (.upsert c id doc)).2.KeepsUp) :
    (x.perform (.upsert c id doc)).1 = (y.perform (.upsert c id doc)).1 ∧
      Agree (x.perform (.upsert c id doc)).2 (y.perform (.upsert c id doc)).2 := by
  rw [perform_upsert_of_faultless h.isFaultless] at hkeeps ⊢
  obtain ⟨s', hwrite, hagree⟩ := h.write (w := .upsert c id doc) trivial (hdoc.withId id) hkeeps
  have hy : DocumentStore.upsert y.store c id doc = .ok s' := hwrite
  rw [perform, hy]
  exact ⟨rfl, hagree⟩

/-! ### Streams -/

theorem subscribe_agree (h : Agree x y) (c : Collection) :
    (x.perform (.subscribe c)).1 = (y.perform (.subscribe c)).1 ∧
      Agree (x.perform (.subscribe c)).2 (y.perform (.subscribe c)).2 := by
  obtain ⟨log, hlog, hstreams⟩ := h.streams
  have hx : DocumentStore.subscribe x.store c =
      .ok (⟨c, (x.store.feeds.get c).published⟩, x.store.countReaders c (· + 1)) :=
    MemoryStore.subscribe_of_faultless h.isFaultless c
  rw [perform_subscribe hlog, perform, hx]
  refine ⟨rfl, h.isFaultless, h.isReady, h.canReplace, log, hlog, fun d => ?_⟩
  by_cases hd : d = c
  · subst hd
    simp only [MemoryStore.countReaders, ByCollection.get_set_self]
    have hcounted := (hstreams d).imp fun reader tail hsame =>
      hsame.readers ((x.store.feeds.get d).readers + 1)
    exact List.rel_append hcounted (.cons (SameStream.ofSubscription _ d _ log) .nil)
  · simp only [MemoryStore.countReaders, ByCollection.get_set_of_ne _ hd]
    exact hstreams d

theorem next_agree (h : Agree x y) (c : Collection) (n : Nat) :
    (x.perform (.next c n)).1 = (y.perform (.next c n)).1 ∧
      Agree (x.perform (.next c n)).2 (y.perform (.next c n)).2 := by
  obtain ⟨log, hlog, hstreams⟩ := h.streams
  have hkeep : ∀ {reader : FeedReader} {tail : Tail},
      SameStream (x.store.feeds.get c) c (y.store.tableName c) log reader tail →
        Agree (x.keep c n reader) (y.keep c n tail) := by
    intro reader tail hsame
    refine ⟨h.isFaultless, h.isReady, h.canReplace, log, hlog, fun d => ?_⟩
    by_cases hd : d = c
    · subst hd
      simp only [keep, ByCollection.get_set_self]
      exact forall₂_set (hstreams d) hsame n
    · simp only [keep, ByCollection.get_set_of_ne _ hd]
      exact hstreams d
  rw [perform, perform]
  obtain ⟨hnone, hnone'⟩ | ⟨reader, tail, hreader, htail, hsame⟩ :=
    forall₂_getElem? (hstreams c) n
  · rw [hnone, hnone']
    exact ⟨rfl, h⟩
  · have hx : DocumentStore.next x.store reader = x.store.next reader := rfl
    have hy : DocumentStore.next y.store tail = tail.next y.store.database := rfl
    simp only [hreader, htail, hx, hy]
    obtain ⟨tail', hnext, hnext', hsame'⟩ | ⟨event, reader', tail', hnext, hnext', hsame'⟩ :=
      hsame.next rfl hlog
    · rw [hnext, hnext']
      exact ⟨rfl, hkeep hsame'⟩
    · rw [hnext, hnext']
      exact ⟨rfl, hkeep hsame'⟩

/-! ### Runs -/

/-- A request that both stores can be asked is answered alike. -/
theorem perform_agree (h : Agree x y) (hpermits : x.Permits request)
    (hkeeps : (x.perform request).2.KeepsUp) :
    (x.perform request).1 = (y.perform request).1 ∧
      Agree (x.perform request).2 (y.perform request).2 := by
  cases request with
  | scan c => exact ⟨congrArg Answer.rows (scan_agree h c), h⟩
  | get c id => exact ⟨congrArg Answer.row (get_agree h c id), h⟩
  | filterEq c key value =>
    obtain ⟨hkey, hvalue⟩ := hpermits
    exact ⟨congrArg Answer.rows (filterEq_agree h c hkey hvalue), h⟩
  | insert c fresh doc =>
    obtain ⟨hdoc, hfree⟩ := hpermits
    exact insert_agree h hdoc hfree hkeeps
  | upsert c id doc => exact upsert_agree h hpermits hkeeps
  | subscribe c => exact subscribe_agree h c
  | next c n => exact next_agree h c n

theorem answers_agree (h : Agree x y) {requests : List Request} (hallows : x.Allows requests) :
    x.answers requests = y.answers requests := by
  induction requests generalizing x y with
  | nil => rfl
  | cons request requests ih =>
    obtain ⟨hpermits, hkeeps, hallows⟩ := hallows
    obtain ⟨hanswer, hnext⟩ := perform_agree h hpermits hkeeps
    rw [answers, answers, hanswer, ih hnext hallows]

theorem agree_of_empty {s : TableStore} (h : s.IsReady (.ofFn fun _ => []))
    (hreplace : TableStore.CanReplace s.names) : Agree { store := .empty } { store := s } := by
  obtain ⟨log, hlog⟩ := h.isLogged
  refine ⟨rfl, h, hreplace, log, hlog, fun c => ?_⟩
  rw [ByCollection.get_ofFn, ByCollection.get_ofFn]
  exact .nil

/-- A store in memory and a store in a database that begin empty give the same answers in every run
of requests that both can be asked, and their streams the same events. -/
theorem stores_agree {s s' : TableStore} (hnames : TableStore.HasDistinctTables s.names)
    (hreplace : TableStore.CanReplace s.names) (hempty : s.database = .empty) (hprepare : DocumentStore.prepare s = (.ok (), s'))
    {requests : List Request}
    (hallows : ({ store := .empty } : Client MemoryStore FeedReader).Allows requests) :
    ({ store := .empty } : Client MemoryStore FeedReader).answers requests =
      ({ store := s' } : Client TableStore Tail).answers requests := by
  have hready := TableStore.isReady_prepared hnames hempty hprepare
  obtain ⟨-, hsame, -⟩ := TableStore.holds_prepared hnames hempty hprepare
  exact answers_agree (agree_of_empty hready (hsame ▸ hreplace)) hallows

theorem keepsUp_of_published_le
    (h : ∀ c, (x.store.feeds.get c).published ≤ Feed.capacity) : x.KeepsUp :=
  fun c _ _ => (Nat.sub_le _ _).trans (h c)

/-- A row that is inserted, written again, selected, and told of twice. -/
theorem stores_agree_on_row_written_twice :
    let s : TableStore := { path := "lab.db", names := .ofFn Collection.name }
    let requests : List Request := [.subscribe .tests, .insert .tests "t" [], .upsert .tests "t" [],
      .filterEq .tests "id" (.string "t"), .next .tests 0, .next .tests 0, .next .tests 0]
    ∃ s', DocumentStore.prepare s = (.ok (), s') ∧
      ({ store := .empty } : Client MemoryStore FeedReader).answers requests =
        ({ store := s' } : Client TableStore Tail).answers requests := by
  intro s requests
  obtain ⟨s', hprepare, -⟩ := TableStore.exists_ready_usual s.path
  have hid : IsFieldName "id" := by simp [IsFieldName]
  have hallows : ({ store := .empty } : Client MemoryStore FeedReader).Allows requests := by
    refine ⟨trivial, keepsUp_of_published_le ?_, ⟨Document.readsBack_nil, rfl⟩,
      keepsUp_of_published_le ?_, Document.readsBack_nil, keepsUp_of_published_le ?_,
      ⟨hid, trivial⟩, keepsUp_of_published_le ?_, trivial, keepsUp_of_published_le ?_, trivial,
      keepsUp_of_published_le ?_, trivial, keepsUp_of_published_le ?_, trivial⟩ <;>
    · intro c
      cases c <;> decide
  exact ⟨s', hprepare, stores_agree TableStore.hasDistinctTables_usual
    TableStore.canReplace_usual rfl hprepare hallows⟩

end Client

end TrialBoard
