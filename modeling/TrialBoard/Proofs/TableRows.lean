import TrialBoard.Proofs.Replay
import TrialBoard.Store.Tables

/-!
# What a store in a database holds

`TableStore.Holds` relates a store to the rows of its collections: each has a table, whose rows are
the texts of the collection's rows in their order. A read answers from these rows, and a write that
succeeds pushes its row, puts the text of it into the table and logs one change. A table that keeps
its bodies takes only rows whose id is free (`Write.onto`); the change is logged all the same.

Every row has an id of its own, and its text reads back as the row.
-/

namespace TrialBoard

open Document (hasId hasId_iff)
open ExperimentView (upsertRow)

/-- Whether the text of a row reads back as the row. -/
def Document.ReadsBack (row : Document) : Prop :=
  Json.parse (Json.object row).render = .ok (.object row)

/-- One write. -/
inductive Write where
  | insert (c : Collection) (fresh : String) (doc : Document)
  | upsert (c : Collection) (id : String) (doc : Document)

namespace Write

/-- The collection that is written to. -/
def collection : Write → Collection
  | insert c _ _ => c
  | upsert c _ _ => c

/-- The id of the row that is written. -/
def id : Write → String
  | insert _ fresh doc => (doc.identified fresh).1
  | upsert _ id _ => id

/-- The row that is written. -/
def row : Write → Document
  | insert _ fresh doc => (doc.identified fresh).2
  | upsert _ id doc => doc.withId id

theorem id?_row (w : Write) : w.row.id? = some w.id := by
  cases w with
  | insert c fresh doc => exact Document.id?_identified fresh doc
  | upsert c id doc => exact Document.id?_withId doc id

/-- What a write makes of the rows of its collection, whose table may keep its bodies. -/
def onto (w : Write) (keeps : Bool) (rows : List Document) : List Document :=
  if keeps && (rows.find? (hasId w.id)).isSome then rows else upsertRow w.row rows

variable {rows : List Document}

@[simp] theorem onto_false (w : Write) (rows : List Document) :
    w.onto false rows = upsertRow w.row rows := rfl

theorem onto_of_free {w : Write} (h : rows.find? (hasId w.id) = none) (keeps : Bool) :
    w.onto keeps rows = upsertRow w.row rows := by
  simp [onto, h]

theorem onto_of_held {w : Write} {old : Document} (h : rows.find? (hasId w.id) = some old) :
    w.onto true rows = rows := by
  simp [onto, h]

theorem keyed_onto (h : Keyed rows) (w : Write) (keeps : Bool) : Keyed (w.onto keeps rows) := by
  unfold onto
  split
  · exact h
  · exact keyed_upsertRow h w.id?_row

theorem mem_onto {w : Write} {keeps : Bool} {r : Document} (h : Keyed rows)
    (hr : r ∈ w.onto keeps rows) : r = w.row ∨ r ∈ rows := by
  unfold onto at hr
  split at hr
  · exact .inr hr
  · exact (mem_upsertRow w.id?_row h hr).imp_right And.left

end Write

/-- Whether a write adds no row under an id that is taken. -/
def Write.IsFree (rows : ByCollection (List Document)) : Write → Prop
  | .insert c fresh doc => (rows.get c).find? (hasId (doc.identified fresh).1) = none
  | .upsert _ _ _ => True

/-! ## Rows put into a table -/

namespace Table

@[simp] theorem name_put (t : Table) (row : Row) : (t.put row).name = t.name := by
  rcases t.put_cases row with ⟨-, hput⟩ | ⟨-, -, ⟨-, hput⟩ | ⟨-, hput⟩⟩ <;> rw [hput]

theorem row?_put_of_free {t : Table} {row : Row} (h : t.row? row.id = none) :
    (t.put row).row? row.id = some row := by
  rcases t.put_cases row with ⟨-, hput⟩ | ⟨old, hold, -⟩
  · rw [row?] at h ⊢
    rw [hput, List.find?_append, h]
    simp
  · rw [h] at hold
    cases hold

end Table

/-! ## Tables found by name -/

namespace Database

variable {db : Database} {name : String} {t t' : Table}

theorem sameName_iff {a b : String} : sameName a b = true ↔ a.toLower = b.toLower := by
  simp [sameName]

theorem sameName_of_table? (h : db.table? name = some t) : sameName name t.name = true :=
  List.find?_some (p := fun t : Table => sameName name t.name) h

theorem keepsBodies_of_table? (h : db.table? name = some t) :
    keepsBodies name = keepsBodies t.name := by
  rw [keepsBodies, keepsBodies, sameName, sameName, sameName_iff.1 (sameName_of_table? h)]

theorem table?_setTable (db : Database) (name : String) (t' : Table) :
    (db.setTable t').table? name =
      (db.table? name).map fun t => if sameName t'.name t.name then t' else t := by
  have hcomp : ((sameName name ·.name) ∘ fun t : Table =>
      if sameName t'.name t.name then t' else t) = (sameName name ·.name) := by
    funext t
    by_cases h : sameName t'.name t.name
    · have hlower := sameName_iff.1 h
      simp [sameName, hlower]
    · simp [h]
  simp only [table?, setTable, List.find?_map, hcomp]

theorem table?_setTable_self (h : db.table? name = some t) (hname : t'.name = t.name) :
    (db.setTable t').table? name = some t' := by
  rw [table?_setTable, h]
  simp [hname, sameName]

theorem table?_setTable_of_ne (h : sameName name t'.name = false) :
    (db.setTable t').table? name = db.table? name := by
  rw [table?_setTable]
  cases ht : db.table? name with
  | none => rfl
  | some t =>
    have hlower := sameName_iff.1 (sameName_of_table? ht)
    have hne : sameName t'.name t.name = false := by
      rw [Bool.eq_false_iff, ne_eq, sameName_iff] at h ⊢
      exact fun heq => h (hlower.trans heq.symm)
    simp [hne]

end Database

namespace TableStore

/-- The row of a table that holds a row of a collection. -/
def stored (row : Document) : Row := rowOf (row.id?.getD "") row

/-- Whether the tables of the collections are told apart by their names. -/
def HasDistinctTables (names : CollectionNames) : Prop :=
  ∀ c d, sameName (names.get c) (names.get d) = true → c = d

/-- Whether the rows of all collections can be replaced. -/
def CanReplace (names : CollectionNames) : Prop := ∀ c, keepsBodies (names.get c) = false

/-- What a store holds in each collection. -/
structure Holds (s : TableStore) (rows : ByCollection (List Document)) : Prop where
  tables : ∀ c, ∃ t, s.database.table? (s.tableName c) = some t ∧ t.rows = (rows.get c).map stored
  keyed : ∀ c, Keyed (rows.get c)
  readable : ∀ c, ∀ row ∈ rows.get c, row.ReadsBack

variable {s s' : TableStore} {rows : ByCollection (List Document)} {c d : Collection}
  {docs : List Document} {row : Document} {id : String} {t : Table}

/-! ## Rows of a table -/

theorem stored_id (h : row.id? = some id) : (stored row).id = id := by simp [stored, rowOf, h]

theorem find?_stored (h : Keyed docs) (id : String) :
    (docs.map stored).find? (·.id == id) = (docs.find? (hasId id)).map stored := by
  induction docs with
  | nil => rfl
  | cons row docs ih =>
    obtain ⟨other, hother⟩ := h.ids row List.mem_cons_self
    have hsame : ((stored row).id == id) = hasId id row := by
      rw [stored_id hother, hasId, hother]
      rfl
    rw [List.map_cons, List.find?_cons, List.find?_cons, hsame, ih h.tail]
    cases hasId id row <;> rfl

theorem map_stored_replaceOrAppend (h : Keyed docs) (hid : row.id? = some id)
    (hheld : (docs.find? (hasId id)).isSome = true) :
    (docs.map stored).map (fun r => if r.id = id then stored row else r) =
      (Document.replaceOrAppend row id docs).map stored := by
  induction docs with
  | nil => cases hheld
  | cons r docs ih =>
    obtain ⟨other, hother⟩ := h.ids r List.mem_cons_self
    by_cases hr : hasId id r
    · obtain rfl : other = id := Option.some.inj (hother.symm.trans (hasId_iff.1 hr))
      have hrest : ∀ x ∈ docs.map stored,
          (if x.id = other then stored row else x) = x := fun x hx => by
        obtain ⟨d, hd, rfl⟩ := List.mem_map.1 hx
        obtain ⟨did, hdid⟩ := h.ids d (List.mem_cons_of_mem _ hd)
        refine if_neg fun heq => (List.nodup_cons.1 h.nodup).1 ?_
        rw [stored_id hdid] at heq
        exact List.mem_map.2 ⟨d, hd, by rw [hdid, hother, heq]⟩
      have hsame : (docs.map stored).map (fun x => if x.id = other then stored row else x) =
          docs.map stored := (List.map_congr_left hrest).trans (List.map_id' _)
      simp only [List.map_cons, stored_id hother, if_true, Document.replaceOrAppend, hr, hsame]
    · have hne : other ≠ id := fun heq => hr (hasId_iff.2 (heq ▸ hother))
      have hheld' : (docs.find? (hasId id)).isSome = true := by simpa [hr] using hheld
      simp only [List.map_cons, stored_id hother, hne, if_false, Document.replaceOrAppend, hr,
        Bool.false_eq_true]
      rw [ih h.tail hheld']

/-- Putting the text of a row into a table is writing the row. -/
theorem rows_put (h : Keyed docs) (ht : t.rows = docs.map stored) (w : Write) :
    (t.put (rowOf w.id w.row)).rows = (w.onto (keepsBodies t.name) docs).map stored := by
  have hrow : rowOf w.id w.row = stored w.row := by simp [stored, w.id?_row]
  have hfind : t.row? (stored w.row).id = (docs.find? (hasId w.id)).map stored := by
    rw [Table.row?, ht, stored_id w.id?_row, find?_stored h]
  rw [hrow]
  rcases t.put_cases (stored w.row) with ⟨hfree, hput⟩ | ⟨_, hheld, ⟨hkeeps, hput⟩ | ⟨hkeeps, hput⟩⟩
  · have hnone := Option.map_eq_none_iff.1 (hfind.symm.trans hfree)
    rw [hput, Write.onto_of_free hnone, upsertRow_of_id w.id?_row,
      replaceOrAppend_of_find?_eq_none hnone]
    simp [ht]
  · obtain ⟨old, hold, -⟩ := Option.map_eq_some_iff.1 (hfind.symm.trans hheld)
    rw [hput, hkeeps, Write.onto_of_held hold, ht]
  · obtain ⟨old, hold, -⟩ := Option.map_eq_some_iff.1 (hfind.symm.trans hheld)
    rw [hput, hkeeps, Write.onto_false, upsertRow_of_id w.id?_row,
      ← map_stored_replaceOrAppend h w.id?_row (by simp [hold]), ht, stored_id w.id?_row]

/-! ## Reads -/

theorem readBody_render (h : row.ReadsBack) : readBody (Json.object row).render = .ok row := by
  rw [Document.ReadsBack] at h
  simp only [readBody, h]

theorem mapM_readBody_render (h : ∀ row ∈ docs, row.ReadsBack) :
    (docs.map fun row => (Json.object row).render).mapM readBody = .ok docs := by
  induction docs with
  | nil => rfl
  | cons row docs ih =>
    obtain ⟨hrow, hdocs⟩ := List.forall_mem_cons.1 h
    rw [List.map_cons, List.mapM_cons, readBody_render hrow, ih hdocs]
    rfl

theorem readBodies_render (c : Collection) (h : ∀ row ∈ docs, row.ReadsBack) :
    readBodies c (docs.map fun row => (Json.object row).render) = .ok docs := by
  rw [readBodies, mapM_readBody_render h]

theorem mapM_of_readBodies {bodies : List String} (h : readBodies c bodies = .ok docs) :
    bodies.mapM readBody = .ok docs := by
  unfold readBodies at h
  split at h
  · rename_i rows hrows
    rw [hrows, Except.ok.inj h]
  · cases h

theorem bodies_of_holds (h : s.Holds rows) (c : Collection) :
    s.database.bodies (s.tableName c) =
      .ok ((rows.get c).map fun row => (Json.object row).render) := by
  obtain ⟨t, ht, hrows⟩ := h.tables c
  simp only [Database.bodies, Database.table, ht, hrows, bind, Except.bind, pure, Except.pure,
    List.map_map]
  rfl

/-- A scan answers every row in order. -/
theorem scan_of_holds (h : s.Holds rows) (c : Collection) : s.scan c = .ok (rows.get c) := by
  simp only [scan, bodies_of_holds h c, answer]
  exact readBodies_render c (h.readable c)

/-- A read by id answers the row of the id. -/
theorem get_of_holds (h : s.Holds rows) (c : Collection) (id : String) :
    s.get c id = .ok ((rows.get c).find? (hasId id)) := by
  obtain ⟨t, ht, hrows⟩ := h.tables c
  have hbody : s.database.body? (s.tableName c) id =
      .ok (((rows.get c).find? (hasId id)).map fun row => (Json.object row).render) := by
    simp only [Database.body?, Database.table, ht, Table.row?, hrows, find?_stored (h.keyed c),
      bind, Except.bind, pure, Except.pure, Option.map_map]
    rfl
  simp only [get, hbody, answer, bind, Except.bind, pure, Except.pure]
  cases hfind : (rows.get c).find? (hasId id) with
  | none => rfl
  | some row =>
    have hrow := h.readable c row (List.mem_of_find?_eq_some hfind)
    simp only [Option.map_some, readBody_render hrow]

/-! ## Writes -/

/-- One write. -/
def write (s : TableStore) : Write → Except StoreError TableStore
  | .insert c fresh doc => (s.insert c fresh doc).map Prod.snd
  | .upsert c id doc => s.upsert c id doc

/-- The store with a row put into the table of a collection, and the bodies before and after
logged. -/
def written (s : TableStore) (c : Collection) (t : Table) (log : ChangeLog) (row : Row) :
    TableStore :=
  { s with database :=
    { s.database.setTable (t.put row) with
      log? := some (log.append (s.tableName c) ((t.row? row.id).map (·.body)) (some row.body)) } }

section Writes

variable {log : ChangeLog} (ht : s.database.table? (s.tableName c) = some t)
  (hlog : s.database.log? = some log)

include ht hlog

/-- An insertion puts the row into its table, unless the table has its id. -/
theorem insert_eq (fresh : String) (doc : Document) :
    s.insert c fresh doc =
      if (t.row? (doc.identified fresh).1).isSome then
        .error (.queryFailed c (DatabaseError.duplicateId t.name).message)
      else .ok ((doc.identified fresh).1,
        s.written c t log (rowOf (doc.identified fresh).1 (doc.identified fresh).2)) := by
  unfold insert
  obtain ⟨id, row⟩ := doc.identified fresh
  cases hheld : t.row? id with
  | some old =>
    simp [Database.insert, Database.addRow, Database.table, ht, rowOf, hheld, bind, Except.bind,
      throw, throwThe, MonadExceptOf.throw, answer]
  | none =>
    simp [Database.insert, Database.addRow, Database.table, ht, rowOf, hheld, bind, Except.bind,
      pure, Except.pure, Database.appendChange, Database.log, Database.setTable, hlog, answer,
      written, Table.put]

theorem upsert_eq (id : String) (doc : Document) :
    s.upsert c id doc = .ok (s.written c t log (rowOf id (doc.withId id))) := by
  simp only [upsert, Database.upsert, Database.table, ht, Database.appendChange, Database.log,
    Database.setTable, hlog, bind, Except.bind, pure, Except.pure, answer]
  rfl

end Writes

/-- What an insertion answers is the id of its row. -/
theorem insert_eq_write (s : TableStore) (c : Collection) (fresh : String)
    (doc : Document) : s.insert c fresh doc =
      (s.write (.insert c fresh doc)).map fun s' => ((Write.insert c fresh doc).id, s') := by
  change _ = ((s.insert c fresh doc).map Prod.snd).map _
  unfold insert Write.id
  simp only [bind, Except.bind, pure, Except.pure]
  cases answer c (s.database.insert (s.tableName c) _) <;> rfl

/-- A write that succeeds puts the text of its row into its table and logs the bodies before and
after. -/
theorem write_eq_ok {w : Write} {log : ChangeLog} (h : s.write w = .ok s')
    (ht : s.database.table? (s.tableName w.collection) = some t)
    (hlog : s.database.log? = some log) :
    s' = s.written w.collection t log (rowOf w.id w.row) := by
  cases w with
  | insert c fresh doc =>
    change s.database.table? (s.tableName c) = some t at ht
    rw [write, insert_eq ht hlog] at h
    by_cases hheld : (t.row? (doc.identified fresh).1).isSome
    · rw [if_pos hheld] at h
      cases h
    · rw [if_neg hheld] at h
      exact (Except.ok.inj h).symm
  | upsert c id doc =>
    change s.database.table? (s.tableName c) = some t at ht
    rw [write, upsert_eq ht hlog] at h
    exact (Except.ok.inj h).symm

/-- A row can be inserted only if its table has none with its id. -/
theorem row?_eq_none_of_insert {fresh : String} {doc : Document}
    (ht : s.database.table? (s.tableName c) = some t)
    (hwrite : s.write (.insert c fresh doc) = .ok s') :
    t.row? (doc.identified fresh).1 = none := by
  change (s.insert c fresh doc).map Prod.snd = .ok s' at hwrite
  unfold insert at hwrite
  generalize doc.identified fresh = identified at hwrite ⊢
  obtain ⟨id, row⟩ := identified
  cases hheld : t.row? id with
  | none => rfl
  | some old =>
    simp [Database.insert, Database.addRow, Database.table, ht, rowOf, hheld, bind, Except.bind,
      throw, throwThe, MonadExceptOf.throw, answer, Except.map] at hwrite

theorem find?_eq_none_of_insert {fresh : String} {doc : Document} (h : s.Holds rows)
    (hwrite : s.write (.insert c fresh doc) = .ok s') :
    (rows.get c).find? (hasId (doc.identified fresh).1) = none := by
  obtain ⟨t, ht, hrows⟩ := h.tables c
  have hfree := row?_eq_none_of_insert ht hwrite
  rw [Table.row?, hrows, find?_stored (h.keyed c)] at hfree
  exact Option.map_eq_none_iff.1 hfree

/-- Whether a text of the log can be read. -/
def IsReadable (c : Collection) (body? : Option String) : Prop :=
  ∃ value?, Tail.readBody c body? = .ok value?

theorem readBody_of_readsBack (c : Collection) (h : row.ReadsBack) :
    Tail.readBody c (some (Json.object row).render) = .ok (some (.object row)) := by
  rw [Document.ReadsBack] at h
  simp only [Tail.readBody, h]

/-- The body of a row. -/
def body (row : Document) : String := (Json.object row).render

/-- A write that succeeds logs the bodies of the row that it replaces, if there is one, and of its
own. -/
theorem log_of_write {w : Write} {log : ChangeLog} (h : s.Holds rows)
    (hlog : s.database.log? = some log) (hwrite : s.write w = .ok s') :
    s'.names = s.names ∧ s'.database.log? =
      some (log.append (s.tableName w.collection)
        (((rows.get w.collection).find? (hasId w.id)).map body) (some (body w.row))) := by
  obtain ⟨t, ht, hrows⟩ := h.tables w.collection
  obtain rfl := write_eq_ok hwrite ht hlog
  refine ⟨rfl, ?_⟩
  have hold : (t.row? (rowOf w.id w.row).id).map (·.body) =
      ((rows.get w.collection).find? (hasId w.id)).map body := by
    change (t.row? w.id).map (·.body) = _
    rw [Table.row?, hrows, find?_stored (h.keyed _), Option.map_map]
    rfl
  rw [written, hold]
  rfl

/-- What a write that succeeds makes of the rows of the collections. -/
def rowsAfter (s : TableStore) (rows : ByCollection (List Document)) (w : Write) :
    ByCollection (List Document) :=
  rows.set w.collection
    (w.onto (keepsBodies (s.tableName w.collection)) (rows.get w.collection))

theorem rowsAfter_of_canReplace (h : CanReplace s.names) (rows : ByCollection (List Document))
    (w : Write) :
    s.rowsAfter rows w = rows.set w.collection (upsertRow w.row (rows.get w.collection)) := by
  rw [rowsAfter, tableName, h, Write.onto_false]

theorem rowsAfter_of_free {w : Write} (h : (rows.get w.collection).find? (hasId w.id) = none) :
    s.rowsAfter rows w = rows.set w.collection (upsertRow w.row (rows.get w.collection)) := by
  rw [rowsAfter, Write.onto_of_free h]

/-- A write that succeeds writes its row, and logs a change that tells of it. -/
theorem holds_write {w : Write} {log : ChangeLog} (hnames : HasDistinctTables s.names)
    (h : s.Holds rows) (hlog : s.database.log? = some log) (hrow : w.row.ReadsBack)
    (hwrite : s.write w = .ok s') :
    s'.Holds (s.rowsAfter rows w) ∧
      s'.names = s.names ∧ s'.blocked? = s.blocked? ∧ ∃ old?, IsReadable w.collection old? ∧
        s'.database.log? = some (log.append (s.tableName w.collection) old?
          (some (Json.object w.row).render)) := by
  obtain ⟨t, ht, hrows⟩ := h.tables w.collection
  have hput := rows_put (h.keyed w.collection) hrows w
  have hname := t.name_put (rowOf w.id w.row)
  rw [← Database.keepsBodies_of_table? ht] at hput
  obtain ⟨-, hlogged⟩ := log_of_write h hlog hwrite
  unfold rowsAfter
  obtain rfl := write_eq_ok hwrite ht hlog
  refine ⟨⟨fun c => ?_, fun c => ?_, fun c => ?_⟩, rfl, rfl, _, ?_, hlogged⟩
  · by_cases hc : c = w.collection
    · subst hc
      rw [ByCollection.get_set_self]
      exact ⟨_, Database.table?_setTable_self ht hname, hput⟩
    · obtain ⟨t', ht', hrows'⟩ := h.tables c
      have hother : sameName (s.tableName c) (t.put (rowOf w.id w.row)).name = false := by
        have hlower := Database.sameName_iff.1 (Database.sameName_of_table? ht)
        rw [Bool.eq_false_iff, ne_eq, hname, Database.sameName_iff, ← hlower,
          ← Database.sameName_iff]
        exact fun hsame => hc (hnames c w.collection hsame)
      rw [ByCollection.get_set_of_ne _ hc]
      exact ⟨t', (Database.table?_setTable_of_ne hother).trans ht', hrows'⟩
  · by_cases hc : c = w.collection
    · subst hc
      rw [ByCollection.get_set_self]
      exact w.keyed_onto (h.keyed _) _
    · rw [ByCollection.get_set_of_ne _ hc]
      exact h.keyed c
  · by_cases hc : c = w.collection
    · subst hc
      rw [ByCollection.get_set_self]
      intro r hr
      rcases Write.mem_onto (h.keyed _) hr with rfl | hr
      · exact hrow
      · exact h.readable _ r hr
    · rw [ByCollection.get_set_of_ne _ hc]
      exact h.readable c
  · cases hfind : (rows.get w.collection).find? (hasId w.id) with
    | none => exact ⟨none, rfl⟩
    | some old =>
      have hold := h.readable _ old (List.mem_of_find?_eq_some hfind)
      exact ⟨_, readBody_of_readsBack w.collection hold⟩

/-! ## The store that was just prepared -/

theorem createTable_of_new {db db' : Database} {name : String}
    (h : db.createTable name = .ok db') (hnew : db.table? name = none) :
    db' = { db with tables := db.tables ++ [{ name }] } := by
  simp only [Database.createTable, hnew, Option.isSome_none, Bool.false_eq_true, if_false] at h
  split at h
  · cases h
  · split at h
    · cases h
    · exact (Except.ok.inj h).symm

theorem createTables_of_new {db db' : Database} {names : List String}
    (h : db.createTables names = (.ok (), db'))
    (hnames : names.Pairwise fun a b => sameName b a = false)
    (hnew : ∀ name ∈ names, db.table? name = none) :
    db' = { db with tables := db.tables ++ names.map fun name => { name } } := by
  induction names generalizing db with
  | nil =>
    obtain ⟨-, rfl⟩ := Prod.mk.inj h
    simp
  | cons name names ih =>
    simp only [Database.createTables] at h
    split at h
    · rename_i created hcreate
      obtain rfl := createTable_of_new hcreate (hnew name List.mem_cons_self)
      obtain ⟨hname, hnames⟩ := List.pairwise_cons.1 hnames
      have hnew' : ∀ other ∈ names,
          Database.table? { db with tables := db.tables ++ [{ name }] } other = none := by
        intro other hother
        have hold := hnew other (List.mem_cons_of_mem _ hother)
        simp only [Database.table?] at hold ⊢
        rw [List.find?_append, hold]
        simp [hname other hother]
      rw [ih h hnames hnew']
      simp
    · cases (Prod.mk.inj h).1

theorem find?_of_distinct {names : List String} {name : String}
    (hnames : names.Pairwise fun a b => sameName b a = false) (hname : name ∈ names) :
    (names.map fun name => ({ name } : Table)).find? (sameName name ·.name) = some { name } := by
  induction names with
  | nil => cases hname
  | cons other names ih =>
    obtain ⟨hother, hnames⟩ := List.pairwise_cons.1 hnames
    rcases List.mem_cons.1 hname with rfl | hname
    · simp [sameName]
    · simp [hother name hname, ih hnames hname]

theorem ensure_of_empty {names : CollectionNames} {db : Database}
    (hnames : names.toList.Pairwise fun a b => sameName b a = false)
    (h : Database.empty.ensure names = (.ok (), db)) :
    db =
      { tables := names.toList.map fun name => { name }, log? := some { isIndexed := true } } := by
  unfold Database.ensure at h
  split at h
  · rename_i created hcreated
    obtain rfl := createTables_of_new hcreated hnames fun name _ => rfl
    simp only [Database.createLog] at h
    split at h
    · cases (Prod.mk.inj h).1
    · exact (Prod.mk.inj h).2.symm
  · rename_i hfailed
    exact (hfailed _ h).elim

theorem openSession_of_open (h : s.blocked? = none) : DocumentStore.openSession s = .ok s := by
  change openSession s = _
  rw [openSession, h]

theorem openSession_of_blocked {reason : String} (h : s.blocked? = some reason) :
    DocumentStore.openSession s =
      .error (.error (.unavailable (s.path ++ ": " ++ reason))) := by
  change openSession s = _
  rw [openSession, h]

theorem inSession_of_open {α : Type} (h : s.blocked? = none)
    (ask : TableStore → Except StoreError α) :
    (DocumentStore.inSession s ask).1 = (ask s).mapError .error := by
  simp only [DocumentStore.inSession, openSession_of_open h]
  cases ask s <;> rfl

theorem inSession_of_blocked {α : Type} {reason : String}
    (h : s.blocked? = some reason) (ask : TableStore → Except StoreError α) :
    ∃ failure, (DocumentStore.inSession s ask).1 = .error failure := by
  refine ⟨.error (.unavailable (s.path ++ ": " ++ reason)), ?_⟩
  simp only [DocumentStore.inSession, openSession_of_blocked h]

theorem changeInSession_of_open {α : Type} (h : s.blocked? = none)
    (change : TableStore → Except StoreError (α × TableStore)) :
    DocumentStore.changeInSession s change =
      match change s with
      | .ok (answer, changed) => (.ok answer, changed)
      | .error e => (.error (.error e), s) := by
  simp only [DocumentStore.changeInSession, openSession_of_open h]
  cases change s <;> rfl

theorem prepare_eq_ok (h : DocumentStore.prepare s = (.ok (), s')) :
    s.blocked? = none ∧ ∃ database, s.database.ensure s.names = (.ok (), database) ∧
      s' = { s with database } := by
  unfold DocumentStore.prepare at h
  cases hblocked : s.blocked? with
  | some reason => simp [openSession_of_blocked hblocked] at h
  | none =>
    rw [openSession_of_open hblocked] at h
    change ((ensure s).1.mapError Failure.error, (ensure s).2) = (.ok (), s') at h
    unfold ensure at h
    generalize s.database.ensure s.names = result at h ⊢
    obtain ⟨ensured, database⟩ := result
    cases ensured with
    | error e => cases (Prod.mk.inj h).1
    | ok u => exact ⟨rfl, database, rfl, by rw [← (Prod.mk.inj h).2, hblocked]⟩

/-- Whether a table can be given a name, and leaves the one of the log's index to it. -/
def IsFreeName (name : String) : Prop :=
  isReserved name = false ∧ sameName logIndexName name = false

theorem createTable_of_free {db : Database} {name : String} (hname : IsFreeName name)
    (hlog : db.log? = none) (hindex : db.table? logIndexName = none) :
    ∃ db', db.createTable name = .ok db' ∧ db'.log? = none ∧ db'.table? logIndexName = none := by
  unfold Database.createTable
  rw [if_neg (by simp [hname.1])]
  split
  · exact ⟨db, rfl, hlog, hindex⟩
  · rw [if_neg (by simp [hlog])]
    refine ⟨_, rfl, hlog, ?_⟩
    rw [Database.table?] at hindex ⊢
    rw [List.find?_append, hindex, Option.none_or]
    simp [hname.2]

theorem createTables_of_free {db : Database} {names : List String}
    (hnames : ∀ name ∈ names, IsFreeName name) (hlog : db.log? = none)
    (hindex : db.table? logIndexName = none) :
    ∃ db', db.createTables names = (.ok (), db') ∧ db'.table? logIndexName = none := by
  induction names generalizing db with
  | nil => exact ⟨db, rfl, hindex⟩
  | cons name names ih =>
    obtain ⟨hname, hnames⟩ := List.forall_mem_cons.1 hnames
    obtain ⟨created, hcreate, hlog', hindex'⟩ := createTable_of_free hname hlog hindex
    unfold Database.createTables
    rw [hcreate]
    exact ih hnames hlog' hindex'

/-- An empty database can be prepared with all names that the database leaves free. -/
theorem exists_prepare (hnames : ∀ c, IsFreeName (s.names.get c)) (hempty : s.database = .empty)
    (hopen : s.blocked? = none) : ∃ s', DocumentStore.prepare s = (.ok (), s') := by
  have hfree : ∀ name ∈ s.names.toList, IsFreeName name := by
    intro name hname
    rw [ByCollection.toList_eq_map_get] at hname
    obtain ⟨c, -, rfl⟩ := List.mem_map.1 hname
    exact hnames c
  obtain ⟨db, hcreate, hindex⟩ :=
    createTables_of_free hfree (rfl : Database.empty.log? = none) rfl
  unfold DocumentStore.prepare
  rw [openSession_of_open hopen]
  change ∃ s', ((ensure s).1.mapError Failure.error, (ensure s).2) = _
  unfold ensure Database.ensure
  rw [hempty, hcreate]
  simp only [Database.createLog, hindex, Option.isSome_none, Bool.false_eq_true, if_false]
  exact ⟨_, rfl⟩

theorem isFreeName_of_toLower {name lower : String} (h : name.toLower = lower)
    (hreserved : "sqlite_".toList.isPrefixOf lower.toList = false) (hindex : logIndexName ≠ lower) :
    IsFreeName name := by
  have hself : logIndexName.toLower = logIndexName := by decide +kernel
  refine ⟨by rw [isReserved, h, hreserved], ?_⟩
  rw [Bool.eq_false_iff, ne_eq, Database.sameName_iff, h, hself]
  exact hindex

theorem isFreeName_usual (c : Collection) : IsFreeName c.name := by
  have hlower : c.name.toLower = c.name := by cases c <;> decide +kernel
  cases c <;> exact isFreeName_of_toLower hlower (by decide) (by decide)

theorem hasDistinctTables_usual : HasDistinctTables (.ofFn Collection.name) := by
  intro c d
  cases c <;> cases d <;> decide +kernel

theorem canReplace_usual : CanReplace (.ofFn Collection.name) := by
  intro c
  cases c <;> decide +kernel

/-- A store that was prepared in an empty database holds no rows, and has a log. -/
theorem holds_prepared (hnames : HasDistinctTables s.names) (hempty : s.database = .empty)
    (h : DocumentStore.prepare s = (.ok (), s')) :
    s'.Holds (.ofFn fun _ => []) ∧ s'.names = s.names ∧ s'.blocked? = none ∧
      ∃ log, s'.database.log? = some log := by
  have hpairs : s.names.toList.Pairwise fun a b => sameName b a = false := by
    rw [ByCollection.toList_eq_map_get, List.pairwise_map]
    have hall : Collection.all.Pairwise (· ≠ ·) := by decide
    exact hall.imp fun {c d} hne => Bool.eq_false_iff.2 fun hsame => hne (hnames d c hsame).symm
  obtain ⟨hopen, database, hensure, rfl⟩ := prepare_eq_ok h
  rw [hempty] at hensure
  obtain rfl := ensure_of_empty hpairs hensure
  refine ⟨⟨fun c => ⟨{ name := s.names.get c }, ?_, ?_⟩, fun c => ?_, fun c row hrow => ?_⟩, rfl,
    hopen, _, rfl⟩
  · have hmem : s.names.get c ∈ s.names.toList := by
      rw [ByCollection.toList_eq_map_get]
      exact List.mem_map_of_mem (Collection.mem_all c)
    exact find?_of_distinct hpairs hmem
  · simp
  · rw [ByCollection.get_ofFn]
    exact keyed_nil
  · simp at hrow

/-- What a store in a database holds, where sessions can be opened and writes be logged. -/
structure IsReady (s : TableStore) (rows : ByCollection (List Document)) : Prop where
  holds : s.Holds rows
  isNamed : HasDistinctTables s.names
  isOpen : s.blocked? = none
  isLogged : ∃ log, s.database.log? = some log

theorem isReady_prepared (hnames : HasDistinctTables s.names) (hempty : s.database = .empty)
    (h : DocumentStore.prepare s = (.ok (), s')) : s'.IsReady (.ofFn fun _ => []) := by
  obtain ⟨hholds, hsame, hopen, hlog⟩ := holds_prepared hnames hempty h
  exact ⟨hholds, hsame.symm ▸ hnames, hopen, hlog⟩

/-- An empty database can be prepared with the names that are used unless others are set. -/
theorem exists_ready_usual (path : String) : ∃ s',
    DocumentStore.prepare ({ path, names := .ofFn Collection.name } : TableStore) = (.ok (), s') ∧
      s'.IsReady (.ofFn fun _ => []) := by
  have hfree : ∀ c, IsFreeName ((ByCollection.ofFn Collection.name).get c) := by
    intro c
    rw [ByCollection.get_ofFn]
    exact isFreeName_usual c
  obtain ⟨s', hprepare⟩ :=
    exists_prepare (s := { path, names := .ofFn Collection.name }) hfree rfl rfl
  exact ⟨s', hprepare, isReady_prepared hasDistinctTables_usual rfl hprepare⟩

theorem IsReady.write {w : Write} (h : s.IsReady rows) (hrow : w.row.ReadsBack)
    (hwrite : s.write w = .ok s') : s'.IsReady (s.rowsAfter rows w) ∧ s'.names = s.names := by
  obtain ⟨log, hlog⟩ := h.isLogged
  obtain ⟨hholds, hnames, hblocked, old?, -, hlog'⟩ :=
    holds_write h.isNamed h.holds hlog hrow hwrite
  exact ⟨⟨hholds, hnames ▸ h.isNamed, hblocked ▸ h.isOpen, _, hlog'⟩, hnames⟩

/-- Every write is accepted that does not add a row under an id that is taken. -/
theorem IsReady.exists_write {w : Write} (h : s.IsReady rows) (hfree : w.IsFree rows) :
    ∃ s', s.write w = .ok s' := by
  obtain ⟨t, ht, hrows⟩ := h.holds.tables w.collection
  obtain ⟨log, hlog⟩ := h.isLogged
  cases w with
  | insert c fresh doc =>
    change s.database.table? (s.tableName c) = some t at ht
    change (rows.get c).find? (hasId (doc.identified fresh).1) = none at hfree
    change t.rows = (rows.get c).map stored at hrows
    rw [TableStore.write, insert_eq ht hlog, Table.row?, hrows, find?_stored (h.holds.keyed _),
      hfree]
    exact ⟨_, rfl⟩
  | upsert c id doc => exact ⟨_, upsert_eq ht hlog id doc⟩

end TableStore

end TrialBoard
