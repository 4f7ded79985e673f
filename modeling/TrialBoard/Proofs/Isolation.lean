import Mathlib.Data.Fintype.EquivFin
import TrialBoard.Proofs.Requests
import TrialBoard.Proofs.TableRows
import TrialBoard.Proofs.TailDelivery

/-!
# Collections that do not see each other

The collections of a store share one database and one log. A request reads the table of its own
collection and the changes that the log has under that table's name, and a write changes just these.
So requests on other collections are not seen in the answers on a collection, as long as no two
collections share a table.

`Alike` says of two clients that a collection is the same for both. It is kept when both make the
same request on the collection, which gives the same answer, and when one of them makes a request on
another collection.
-/

namespace TrialBoard

namespace TableStore

variable {s : TableStore} {c d : Collection} {t : Table} {log : ChangeLog}

theorem insert_of_no_table (h : s.database.table? (s.tableName c) = none) (fresh : String)
    (doc : Document) :
    s.insert c fresh doc =
      .error (.queryFailed c (DatabaseError.noSuchTable (s.tableName c)).message) := by
  unfold insert
  obtain ⟨id, row⟩ := doc.identified fresh
  simp [Database.insert, Database.addRow, Database.table, h, bind, Except.bind, answer]

theorem upsert_of_no_table (h : s.database.table? (s.tableName c) = none) (id : String)
    (doc : Document) :
    s.upsert c id doc =
      .error (.queryFailed c (DatabaseError.noSuchTable (s.tableName c)).message) := by
  simp [upsert, Database.upsert, Database.table, h, bind, Except.bind, answer]

theorem subscribe_eq (hlog : s.database.log? = some log) (c : Collection) :
    s.subscribe c = .ok
      ({ collection := c, table := s.tableName c, cursor := log.lastOf (s.tableName c) }, s) := by
  simp [subscribe, Database.log, hlog]

/-- A write changes the table of its collection. -/
theorem table?_written_self (ht : s.database.table? (s.tableName c) = some t) (log : ChangeLog)
    (row : Row) :
    (s.written c t log row).database.table? (s.tableName c) = some (t.put row) :=
  Database.table?_setTable_self ht (t.name_put row)

/-- A write changes no other table. -/
theorem table?_written_of_ne (ht : s.database.table? (s.tableName c) = some t)
    (hne : sameName (s.tableName d) (s.tableName c) = false) (log : ChangeLog) (row : Row) :
    (s.written c t log row).database.table? (s.tableName d) =
      s.database.table? (s.tableName d) := by
  refine Database.table?_setTable_of_ne ?_
  have hlower := Database.sameName_iff.1 (Database.sameName_of_table? ht)
  rw [Bool.eq_false_iff, ne_eq, Database.sameName_iff] at hne ⊢
  rwa [Table.name_put, ← hlower]

end TableStore

/-- Whether two tails of a collection have the same to give, each of its own log. -/
structure Tail.Alike (c : Collection) (table : String) (log log' : ChangeLog) (tail tail' : Tail) :
    Prop where
  follows : tail.Follows log c table
  follows' : tail'.Follows log' c table
  upcoming : tail.upcoming log = tail'.upcoming log'
  hasEnded : tail.hasEnded = tail'.hasEnded

namespace Tail.Alike

variable {c : Collection} {table : String} {log log' : ChangeLog} {tail tail' : Tail}

/-- The same change in both logs keeps tails alike. -/
theorem append (h : Alike c table log log' tail tail') (old? new? : Option String) :
    Alike c table (log.append table old? new?) (log'.append table old? new?) tail tail' := by
  refine ⟨h.follows.append .., h.follows'.append .., ?_, h.hasEnded⟩
  rw [upcoming_append h.follows, upcoming_append h.follows', h.upcoming, h.hasEnded]

/-- A change of another table is not told. -/
theorem append_of_ne (h : Alike c table log log' tail tail') {other : String} (hne : other ≠ table)
    (old? new? : Option String) :
    Alike c table (log.append other old? new?) log' tail tail' := by
  refine ⟨h.follows.append .., h.follows', ?_, h.hasEnded⟩
  rw [upcoming_append_of_ne h.follows hne, h.upcoming]

/-- Tails that were just opened have nothing to give. -/
theorem ofSubscription (c : Collection) (table : String) (log log' : ChangeLog) :
    Alike c table log log' { collection := c, table, cursor := log.lastOf table }
      { collection := c, table, cursor := log'.lastOf table } := by
  refine ⟨⟨rfl, rfl, log.lastOf_le _⟩, ⟨rfl, rfl, log'.lastOf_le _⟩, ?_, rfl⟩
  rw [upcoming_lastOf, upcoming_lastOf]

/-- Tails that are alike give the same answer, and are alike after it. -/
theorem next (h : Alike c table log log' tail tail') {db db' : Database}
    (hlog : db.log? = some log) (hlog' : db'.log? = some log') :
    (∃ result later later', tail.next db = .item result later ∧
      tail'.next db' = .item result later' ∧ Alike c table log log' later later') ∨
    (∃ later later', tail.next db = .pending later ∧ tail'.next db' = .pending later' ∧
      Alike c table log log' later later') ∨
    (tail.next db = .ended ∧ tail'.next db' = .ended) := by
  by_cases hended : tail.hasEnded = true
  · exact .inr (.inr ⟨next_of_hasEnded db hended, next_of_hasEnded db' (h.hasEnded ▸ hended)⟩)
  have hopen : tail.hasEnded = false := Bool.not_eq_true _ ▸ hended
  cases hup : tail.upcoming log with
  | nil =>
    obtain ⟨later, hnext, hfollows, hlater, hend⟩ :=
      next_of_upcoming_eq_nil hlog h.follows hopen hup
    obtain ⟨later', hnext', hfollows', hlater', hend'⟩ :=
      next_of_upcoming_eq_nil hlog' h.follows' (h.hasEnded ▸ hopen) (h.upcoming ▸ hup)
    exact .inr (.inl ⟨later, later', hnext, hnext', hfollows, hfollows',
      hlater.trans hlater'.symm, hend.trans hend'.symm⟩)
  | cons result results =>
    obtain ⟨later, hnext, hfollows, hlater, hend⟩ :=
      next_of_upcoming_eq_cons hlog h.follows hup
    obtain ⟨later', hnext', hfollows', hlater', hend'⟩ :=
      next_of_upcoming_eq_cons hlog' h.follows' (h.upcoming ▸ hup)
    refine .inl ⟨result, later, later', hnext, hnext', hfollows, hfollows',
      hlater.trans hlater'.symm, ?_⟩
    rw [Bool.eq_iff_iff, hend, hend']

end Tail.Alike

/-! ## Two clients -/

namespace Client

variable {names : CollectionNames} {c : Collection} {x y : Client TableStore Tail}
  {request : Request}

/-- Whether a collection is the same for two clients: its table, and what its streams have to
give. -/
structure Alike (names : CollectionNames) (c : Collection) (x y : Client TableStore Tail) :
    Prop where
  isNamed : x.store.names = names
  isNamed' : y.store.names = names
  table : x.store.database.table? (x.store.tableName c) =
    y.store.database.table? (y.store.tableName c)
  streams : ∃ log log', x.store.database.log? = some log ∧ y.store.database.log? = some log' ∧
    List.Forall₂ (Tail.Alike c (x.store.tableName c) log log') (x.streams.get c) (y.streams.get c)

theorem Alike.tableName (h : Alike names c x y) (d : Collection) :
    x.store.tableName d = y.store.tableName d := by
  rw [TableStore.tableName, TableStore.tableName, h.isNamed, h.isNamed']

theorem Alike.bodies (h : Alike names c x y) :
    x.store.database.bodies (x.store.tableName c) =
      y.store.database.bodies (y.store.tableName c) := by
  unfold Database.bodies Database.table
  rw [h.table, h.tableName]

/-! ### The same request on the collection -/

theorem scan_alike (h : Alike names c x y) : x.store.scan c = y.store.scan c := by
  unfold TableStore.scan
  rw [h.bodies]

theorem get_alike (h : Alike names c x y) (id : String) : x.store.get c id = y.store.get c id := by
  unfold TableStore.get Database.body? Database.table
  rw [h.table, h.tableName]

theorem filterEq_alike (h : Alike names c x y) (key : String) (value : Json) :
    x.store.filterEq c key value = y.store.filterEq c key value := by
  unfold TableStore.filterEq TableStore.candidates Database.bodiesWith
  rw [h.bodies]

/-- The same row written to the table of the collection. -/
theorem alike_written (h : Alike names c x y) {t : Table} {log log' : ChangeLog}
    (ht : x.store.database.table? (x.store.tableName c) = some t)
    (hlog : x.store.database.log? = some log) (hlog' : y.store.database.log? = some log')
    (row : Row) :
    Alike names c { x with store := x.store.written c t log row }
      { y with store := y.store.written c t log' row } := by
  obtain ⟨l, l', hl, hl', hstreams⟩ := h.streams
  obtain rfl : l = log := Option.some.inj (hl.symm.trans hlog)
  obtain rfl : l' = log' := Option.some.inj (hl'.symm.trans hlog')
  refine ⟨h.isNamed, h.isNamed', ?_, _, _, rfl, rfl, ?_⟩
  · change (x.store.written c t l row).database.table? (x.store.tableName c) =
      (y.store.written c t l' row).database.table? (y.store.tableName c)
    rw [TableStore.table?_written_self ht, TableStore.table?_written_self (h.table ▸ ht)]
  · rw [← h.tableName]
    exact hstreams.imp fun _ _ htails => htails.append _ _

theorem perform_insert {t : Table} {log : ChangeLog}
    (ht : x.store.database.table? (x.store.tableName c) = some t)
    (hlog : x.store.database.log? = some log) (fresh : String) (doc : Document) :
    x.perform (.insert c fresh doc) =
      if (t.row? (doc.identified fresh).1).isSome then
        (.inserted (.error (.queryFailed c (DatabaseError.duplicateId t.name).message)), x)
      else (.inserted (.ok (doc.identified fresh).1), { x with
        store := x.store.written c t log
          (TableStore.rowOf (doc.identified fresh).1 (doc.identified fresh).2) }) := by
  have hx : DocumentStore.insert x.store c fresh doc = x.store.insert c fresh doc := rfl
  rw [perform, hx, TableStore.insert_eq ht hlog]
  by_cases hheld : (t.row? (doc.identified fresh).1).isSome
  · rw [if_pos hheld, if_pos hheld]
  · rw [if_neg hheld, if_neg hheld]

theorem perform_insert_of_no_table (h : x.store.database.table? (x.store.tableName c) = none)
    (fresh : String) (doc : Document) :
    x.perform (.insert c fresh doc) = (.inserted (.error
      (.queryFailed c (DatabaseError.noSuchTable (x.store.tableName c)).message)), x) := by
  have hx : DocumentStore.insert x.store c fresh doc = x.store.insert c fresh doc := rfl
  rw [perform, hx, TableStore.insert_of_no_table h]

theorem perform_upsert {t : Table} {log : ChangeLog}
    (ht : x.store.database.table? (x.store.tableName c) = some t)
    (hlog : x.store.database.log? = some log) (id : String) (doc : Document) :
    x.perform (.upsert c id doc) = (.upserted (.ok ()), { x with
      store := x.store.written c t log (TableStore.rowOf id (doc.withId id)) }) := by
  have hx : DocumentStore.upsert x.store c id doc = x.store.upsert c id doc := rfl
  rw [perform, hx, TableStore.upsert_eq ht hlog]

theorem perform_upsert_of_no_table (h : x.store.database.table? (x.store.tableName c) = none)
    (id : String) (doc : Document) :
    x.perform (.upsert c id doc) = (.upserted (.error
      (.queryFailed c (DatabaseError.noSuchTable (x.store.tableName c)).message)), x) := by
  have hx : DocumentStore.upsert x.store c id doc = x.store.upsert c id doc := rfl
  rw [perform, hx, TableStore.upsert_of_no_table h]

theorem perform_subscribe {log : ChangeLog} (hlog : x.store.database.log? = some log)
    (c : Collection) :
    x.perform (.subscribe c) = (.subscribed (.ok ()), { x with
      streams := x.streams.set c (x.streams.get c ++
        [{ collection := c, table := x.store.tableName c,
           cursor := log.lastOf (x.store.tableName c) }]) }) := by
  have hx : DocumentStore.subscribe x.store c = x.store.subscribe c := rfl
  rw [perform, hx, TableStore.subscribe_eq hlog]

theorem insert_alike (h : Alike names c x y) (fresh : String) (doc : Document) :
    (x.perform (.insert c fresh doc)).1 = (y.perform (.insert c fresh doc)).1 ∧
      Alike names c (x.perform (.insert c fresh doc)).2 (y.perform (.insert c fresh doc)).2 := by
  obtain ⟨log, log', hlog, hlog', -⟩ := h.streams
  cases ht : x.store.database.table? (x.store.tableName c) with
  | none =>
    rw [perform_insert_of_no_table ht, perform_insert_of_no_table (h.table ▸ ht), h.tableName]
    exact ⟨rfl, h⟩
  | some t =>
    rw [perform_insert ht hlog, perform_insert (h.table ▸ ht) hlog']
    by_cases hheld : (t.row? (doc.identified fresh).1).isSome
    · rw [if_pos hheld, if_pos hheld]
      exact ⟨rfl, h⟩
    · rw [if_neg hheld, if_neg hheld]
      exact ⟨rfl, alike_written h ht hlog hlog' _⟩

theorem upsert_alike (h : Alike names c x y) (id : String) (doc : Document) :
    (x.perform (.upsert c id doc)).1 = (y.perform (.upsert c id doc)).1 ∧
      Alike names c (x.perform (.upsert c id doc)).2 (y.perform (.upsert c id doc)).2 := by
  obtain ⟨log, log', hlog, hlog', -⟩ := h.streams
  cases ht : x.store.database.table? (x.store.tableName c) with
  | none =>
    rw [perform_upsert_of_no_table ht, perform_upsert_of_no_table (h.table ▸ ht), h.tableName]
    exact ⟨rfl, h⟩
  | some t =>
    rw [perform_upsert ht hlog, perform_upsert (h.table ▸ ht) hlog']
    exact ⟨rfl, alike_written h ht hlog hlog' _⟩

theorem subscribe_alike (h : Alike names c x y) :
    (x.perform (.subscribe c)).1 = (y.perform (.subscribe c)).1 ∧
      Alike names c (x.perform (.subscribe c)).2 (y.perform (.subscribe c)).2 := by
  obtain ⟨log, log', hlog, hlog', hstreams⟩ := h.streams
  rw [perform_subscribe hlog, perform_subscribe hlog']
  refine ⟨rfl, h.isNamed, h.isNamed', h.table, log, log', hlog, hlog', ?_⟩
  rw [ByCollection.get_set_self, ByCollection.get_set_self]
  refine List.rel_append hstreams (.cons ?_ .nil)
  rw [← h.tableName]
  exact Tail.Alike.ofSubscription c _ log log'

theorem next_alike (h : Alike names c x y) (n : Nat) :
    (x.perform (.next c n)).1 = (y.perform (.next c n)).1 ∧
      Alike names c (x.perform (.next c n)).2 (y.perform (.next c n)).2 := by
  obtain ⟨log, log', hlog, hlog', hstreams⟩ := h.streams
  have hkeep : ∀ {later later' : Tail},
      Tail.Alike c (x.store.tableName c) log log' later later' →
        Alike names c (x.keep c n later) (y.keep c n later') := by
    intro later later' hlater
    refine ⟨h.isNamed, h.isNamed', h.table, log, log', hlog, hlog', ?_⟩
    rw [keep, keep, ByCollection.get_set_self, ByCollection.get_set_self]
    exact forall₂_set hstreams hlater n
  rw [perform, perform]
  obtain ⟨hnone, hnone'⟩ | ⟨tail, tail', htail, htail', halike⟩ := forall₂_getElem? hstreams n
  · rw [hnone, hnone']
    exact ⟨rfl, h⟩
  · have hx : DocumentStore.next x.store tail = tail.next x.store.database := rfl
    have hy : DocumentStore.next y.store tail' = tail'.next y.store.database := rfl
    simp only [htail, htail', hx, hy]
    obtain ⟨result, later, later', hnext, hnext', hlater⟩ |
      ⟨later, later', hnext, hnext', hlater⟩ | ⟨hnext, hnext'⟩ := halike.next hlog hlog'
    · rw [hnext, hnext']
      exact ⟨rfl, hkeep hlater⟩
    · rw [hnext, hnext']
      exact ⟨rfl, hkeep hlater⟩
    · rw [hnext, hnext']
      exact ⟨rfl, h⟩

/-- The same request on the collection is answered alike. -/
theorem perform_alike (h : Alike names c x y) (hrequest : request.collection = c) :
    (x.perform request).1 = (y.perform request).1 ∧
      Alike names c (x.perform request).2 (y.perform request).2 := by
  subst hrequest
  cases request with
  | scan c => exact ⟨congrArg Answer.rows (scan_alike h), h⟩
  | get c id => exact ⟨congrArg Answer.row (get_alike h id), h⟩
  | filterEq c key value => exact ⟨congrArg Answer.rows (filterEq_alike h key value), h⟩
  | insert c fresh doc => exact insert_alike h fresh doc
  | upsert c id doc => exact upsert_alike h id doc
  | subscribe c => exact subscribe_alike h
  | next c n => exact next_alike h n

/-! ### A request on another collection -/

theorem alike_written_of_ne {d : Collection} (h : Alike names c x y) {t : Table} {log : ChangeLog}
    (hne : sameName (x.store.tableName c) (x.store.tableName d) = false)
    (ht : x.store.database.table? (x.store.tableName d) = some t)
    (hlog : x.store.database.log? = some log) (row : Row) :
    Alike names c { x with store := x.store.written d t log row } y := by
  obtain ⟨l, log', hl, hlog', hstreams⟩ := h.streams
  obtain rfl : l = log := Option.some.inj (hl.symm.trans hlog)
  have hname : x.store.tableName d ≠ x.store.tableName c := by
    intro heq
    rw [heq, Bool.eq_false_iff] at hne
    exact hne (Database.sameName_iff.2 rfl)
  refine ⟨h.isNamed, h.isNamed', ?_, _, log', rfl, hlog', ?_⟩
  · exact (TableStore.table?_written_of_ne ht hne l row).trans h.table
  · exact hstreams.imp fun _ _ htails => htails.append_of_ne hname _ _

/-- A request on another collection changes nothing for the collection. -/
theorem perform_alike_of_ne (hnames : TableStore.HasDistinctTables names)
    (h : Alike names c x y) (hrequest : request.collection ≠ c) :
    Alike names c (x.perform request).2 y := by
  obtain ⟨log, log', hlog, hlog', hstreams⟩ := h.streams
  have hne : sameName (x.store.tableName c) (x.store.tableName request.collection) = false :=
    Bool.eq_false_iff.2 fun hsame => by
      rw [TableStore.tableName, TableStore.tableName, h.isNamed] at hsame
      exact hrequest (hnames _ _ hsame).symm
  have hkept : ∀ streams,
      Alike names c { x with streams := x.streams.set request.collection streams } y := by
    intro streams
    refine ⟨h.isNamed, h.isNamed', h.table, log, log', hlog, hlog', ?_⟩
    rw [ByCollection.get_set_of_ne _ (Ne.symm hrequest)]
    exact hstreams
  cases request with
  | scan d => exact h
  | get d id => exact h
  | filterEq d key value => exact h
  | insert d fresh doc =>
    cases ht : x.store.database.table? (x.store.tableName d) with
    | none =>
      rw [perform_insert_of_no_table ht]
      exact h
    | some t =>
      rw [perform_insert ht hlog]
      by_cases hheld : (t.row? (doc.identified fresh).1).isSome
      · rw [if_pos hheld]
        exact h
      · rw [if_neg hheld]
        exact alike_written_of_ne h hne ht hlog _
  | upsert d id doc =>
    cases ht : x.store.database.table? (x.store.tableName d) with
    | none =>
      rw [perform_upsert_of_no_table ht]
      exact h
    | some t =>
      rw [perform_upsert ht hlog]
      exact alike_written_of_ne h hne ht hlog _
  | subscribe d =>
    rw [perform_subscribe hlog]
    exact hkept _
  | next d n =>
    rw [perform]
    split
    · exact h
    · split
      · exact hkept _
      · exact hkept _
      · exact h

/-! ### Runs -/

/-- The answers on a collection are those of a run that makes no other requests. -/
theorem answersOn_alike (hnames : TableStore.HasDistinctTables names) (h : Alike names c x y)
    (requests : List Request) :
    answersOn c x requests = y.answers (requests.filter (·.collection == c)) := by
  unfold answersOn
  induction requests generalizing x y with
  | nil => rfl
  | cons request requests ih =>
    rw [answers, List.filter_cons, List.filter_cons]
    by_cases hrequest : request.collection = c
    · obtain ⟨hanswer, hnext⟩ := perform_alike h hrequest
      rw [if_pos (by simpa using hrequest), if_pos (by simpa using hrequest), answers, ih hnext,
        hanswer]
    · rw [if_neg (by simpa using hrequest), if_neg (by simpa using hrequest)]
      exact ih (perform_alike_of_ne hnames h hrequest)

theorem run_alike (hnames : TableStore.HasDistinctTables names) (h : Alike names c x y)
    (requests : List Request) :
    Alike names c (x.run requests) (y.run (requests.filter (·.collection == c))) := by
  induction requests generalizing x y with
  | nil => exact h
  | cons request requests ih =>
    rw [run_cons, List.filter_cons]
    by_cases hrequest : request.collection = c
    · rw [if_pos (by simpa using hrequest)]
      exact ih (perform_alike h hrequest).2
    · rw [if_neg (by simpa using hrequest)]
      exact ih (perform_alike_of_ne hnames h hrequest)

/-- Whether writes to a collection are not seen in the others, and do not depend on them. -/
structure Isolates (x : Client TableStore Tail) : Prop where
  /-- Every request on another collection is answered as it is without the write, whatever was asked
  before and is asked after. -/
  unseen : ∀ (before after : List Request) (write : Request) (c : Collection), write.IsWrite →
    c ≠ write.collection →
      answersOn c x (before ++ write :: after) = answersOn c x (before ++ after)
  /-- A write is answered as it is without the requests on other collections. -/
  independent : ∀ (before : List Request) (write : Request), write.IsWrite →
    ((x.run before).perform write).1 =
      ((x.run (before.filter (·.collection == write.collection))).perform write).1

theorem isolates_of_distinct (hnames : TableStore.HasDistinctTables names)
    (h : ∀ c, Alike names c x x) : x.Isolates := by
  refine ⟨fun before after write c _ hne => ?_, fun before write _ => ?_⟩
  · have hother : ¬ (write.collection == c) = true := by simpa using Ne.symm hne
    rw [answersOn_alike hnames (h c), answersOn_alike hnames (h c), List.filter_append,
      List.filter_append, List.filter_cons, if_neg hother]
  · exact (perform_alike (run_alike hnames (h write.collection) before) rfl).1

theorem alike_self {s : TableStore} {log : ChangeLog} (hlog : s.database.log? = some log)
    (c : Collection) :
    Alike s.names c ({ store := s } : Client TableStore Tail) { store := s } := by
  refine ⟨rfl, rfl, rfl, log, log, hlog, hlog, ?_⟩
  rw [ByCollection.get_ofFn]
  exact .nil

end Client

/-! ## Shared tables -/

theorem Database.table?_of_sameName (db : Database) {a b : String} (h : sameName a b = true) :
    db.table? a = db.table? b := by
  unfold table? sameName
  rw [sameName_iff.1 h]

/-- Some text is no id of a table. -/
theorem Table.exists_fresh (t : Table) : ∃ id, t.row? id = none := by
  obtain ⟨id, hid⟩ := Infinite.exists_notMem_finset (t.rows.map (·.id)).toFinset
  refine ⟨id, List.find?_eq_none.2 fun row hrow hsame => hid ?_⟩
  rw [List.mem_toFinset, ← beq_iff_eq.1 hsame]
  exact List.mem_map_of_mem hrow

theorem Document.identified_of_id? {doc : Document} {id : String} (h : doc.id? = some id)
    (fresh : String) : doc.identified fresh = (id, doc) := by
  unfold identified
  rw [h]

namespace TableStore

variable {s s' : TableStore}

/-- In a store where two collections share a table, an id that was inserted into one of them cannot
be inserted into the other. -/
theorem not_isolates_of_shared {c d : Collection} (hne : c ≠ d) {t : Table} {log : ChangeLog}
    (hsame : sameName (s.tableName c) (s.tableName d) = true)
    (ht : s.database.table? (s.tableName c) = some t) (hlog : s.database.log? = some log) :
    ¬ ({ store := s } : Client TableStore Tail).Isolates := by
  intro h
  obtain ⟨id, hfresh⟩ := t.exists_fresh
  let doc : Document := [(Document.idKey, .string id)]
  have hdoc : doc.identified "" = (id, doc) := by
    refine Document.identified_of_id? ?_ ""
    simp [doc, Document.id?, Document.text?, Json.Members.get?, Json.asString?]
  have hshared : s.database.table? (s.tableName d) = some t := by
    rw [← ht, Database.table?_of_sameName _ hsame]
  have hwritten : (s.written c t log (rowOf id doc)).database.table? (s.tableName d) =
      some (t.put (rowOf id doc)) := by
    rw [← Database.table?_of_sameName _ hsame]
    exact table?_written_self ht log _
  have hheld : ((t.put (rowOf id doc)).row? id).isSome = true :=
    Option.isSome_of_eq_some (Table.row?_put_of_free hfresh)
  let x : Client TableStore Tail := { store := s }
  have hrun : x.run [.insert c "" doc] =
      { x with store := s.written c t log (rowOf id doc) } := by
    change (x.perform (.insert c "" doc)).2 = _
    rw [Client.perform_insert ht hlog, hdoc, hfresh, if_neg (by simp)]
  have hindependent := h.independent [.insert c "" doc] (.insert d "" doc) trivial
  have hother : [Client.Request.insert c "" doc].filter (·.collection == d) = [] := by
    simpa [Client.Request.collection] using hne
  rw [hrun, Client.perform_insert hwritten rfl, hdoc, if_pos hheld] at hindependent
  change _ = ((x.run ([Client.Request.insert c "" doc].filter (·.collection == d))).perform _).1
    at hindependent
  rw [hother] at hindependent
  change _ = (x.perform (.insert d "" doc)).1 at hindependent
  rw [Client.perform_insert hshared hlog, hdoc, hfresh, if_neg (by simp)] at hindependent
  cases hindependent

/-! ## Stores that were prepared -/

theorem createTable_isSome {db db' : Database} {name : String}
    (h : db.createTable name = .ok db') :
    (db'.table? name).isSome = true ∧
      ∀ other, (db.table? other).isSome = true → (db'.table? other).isSome = true := by
  unfold Database.createTable at h
  split at h
  · cases h
  · split at h
    · rename_i hheld
      obtain rfl := Except.ok.inj h
      exact ⟨hheld, fun _ hother => hother⟩
    · split at h
      · cases h
      · obtain rfl := Except.ok.inj h
        refine ⟨?_, fun other hother => ?_⟩
        · simp [Database.table?, sameName]
        · simp only [Database.table?, List.find?_append, Option.isSome_or]
          rw [Database.table?] at hother
          rw [hother, Bool.true_or]

theorem createTables_isSome {db db' : Database} {names : List String}
    (h : db.createTables names = (.ok (), db')) :
    (∀ name ∈ names, (db'.table? name).isSome = true) ∧
      ∀ other, (db.table? other).isSome = true → (db'.table? other).isSome = true := by
  induction names generalizing db with
  | nil =>
    obtain ⟨-, rfl⟩ := Prod.mk.inj h
    exact ⟨nofun, fun _ hother => hother⟩
  | cons name names ih =>
    unfold Database.createTables at h
    split at h
    · rename_i created hcreate
      obtain ⟨hname, hkept⟩ := createTable_isSome hcreate
      obtain ⟨hnames, hkept'⟩ := ih h
      refine ⟨List.forall_mem_cons.2 ⟨hkept' name hname, hnames⟩, fun other hother => ?_⟩
      exact hkept' other (hkept other hother)
    · cases (Prod.mk.inj h).1

/-- A store that was prepared has the table of every collection, and the log. -/
theorem tables_of_prepare (h : DocumentStore.prepare s = (.ok (), s')) :
    s'.names = s.names ∧ (∀ c, ∃ t, s'.database.table? (s'.tableName c) = some t) ∧
      ∃ log, s'.database.log? = some log := by
  obtain ⟨-, database, hensure, rfl⟩ := prepare_eq_ok h
  unfold Database.ensure at hensure
  split at hensure
  · rename_i created hcreated
    obtain ⟨htables, -⟩ := createTables_isSome hcreated
    unfold Database.createLog at hensure
    split at hensure
    · cases (Prod.mk.inj hensure).1
    · obtain ⟨-, rfl⟩ := Prod.mk.inj hensure
      refine ⟨rfl, fun c => Option.isSome_iff_exists.1 (htables _ ?_), _, rfl⟩
      rw [ByCollection.toList_eq_map_get]
      exact List.mem_map_of_mem (Collection.mem_all c)
  · rename_i hfailed
    exact (hfailed _ hensure).elim

theorem not_isolates_of_sameName (h : DocumentStore.prepare s = (.ok (), s')) {c d : Collection}
    (hne : c ≠ d) (hsame : sameName (s.names.get c) (s.names.get d) = true) :
    ¬ ({ store := s' } : Client TableStore Tail).Isolates := by
  obtain ⟨hnames, htables, log, hlog⟩ := tables_of_prepare h
  obtain ⟨t, ht⟩ := htables c
  rw [← hnames] at hsame
  exact not_isolates_of_shared hne hsame ht hlog

/-- The collections of a store that was prepared do not see each other just when no two of them have
names that differ in case only. -/
theorem isolates_iff_hasDistinctTables (h : DocumentStore.prepare s = (.ok (), s')) :
    ({ store := s' } : Client TableStore Tail).Isolates ↔ HasDistinctTables s.names := by
  obtain ⟨hnames, -, log, hlog⟩ := tables_of_prepare h
  constructor
  · intro hisolates c d hsame
    by_contra hne
    exact not_isolates_of_sameName h hne hsame hisolates
  · intro hdistinct
    rw [← hnames] at hdistinct
    exact Client.isolates_of_distinct hdistinct (Client.alike_self hlog)

/-- The names that are used unless others are set. -/
theorem isolates_with_usual_names :
    let s : TableStore := { path := "lab.db", names := .ofFn Collection.name }
    ∃ s', DocumentStore.prepare s = (.ok (), s') ∧
      (({ store := s' } : Client TableStore Tail).Isolates ↔ HasDistinctTables s.names) ∧
      ({ store := s' } : Client TableStore Tail).Isolates := by
  intro s
  obtain ⟨s', hprepare, -⟩ := exists_ready_usual s.path
  have hiff := isolates_iff_hasDistinctTables hprepare
  exact ⟨s', hprepare, hiff, hiff.2 hasDistinctTables_usual⟩

/-- Two accepted names that differ in case only. -/
theorem shared_table_under_accepted_names :
    let s : TableStore := { path := "lab.db", names := ⟨"rows", "ROWS", "tests", "analytics"⟩ }
    s.names.fault? = none ∧ ∃ s', DocumentStore.prepare s = (.ok (), s') ∧
      ¬ ({ store := s' } : Client TableStore Tail).Isolates := by
  intro s
  have hrows : "rows".toLower = "rows" := by decide +kernel
  have hROWS : "ROWS".toLower = "rows" := by decide +kernel
  have htests : "tests".toLower = "tests" := by decide +kernel
  have hanalytics : "analytics".toLower = "analytics" := by decide +kernel
  have hfree : ∀ c, IsFreeName (s.names.get c) := by
    intro c
    cases c with
    | experiments => exact isFreeName_of_toLower hrows (by decide) (by decide)
    | transformations => exact isFreeName_of_toLower hROWS (by decide) (by decide)
    | tests => exact isFreeName_of_toLower htests (by decide) (by decide)
    | analytics => exact isFreeName_of_toLower hanalytics (by decide) (by decide)
  obtain ⟨s', hprepare⟩ := exists_prepare hfree rfl rfl
  have hsame : sameName "rows" "ROWS" = true := by
    rw [Database.sameName_iff, hrows, hROWS]
  have hne : Collection.experiments ≠ .transformations := by decide
  exact ⟨by decide, s', hprepare, not_isolates_of_sameName hprepare hne hsame⟩

end TableStore

end TrialBoard
