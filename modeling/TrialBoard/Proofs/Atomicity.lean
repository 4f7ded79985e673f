import TrialBoard.Proofs.Preparation
import TrialBoard.Proofs.Recording

/-!
# Writes are atomic

A write takes several statements: a row is added or put in the place of another, and the change is
logged, and an upsert asks first for the body there is. Each statement can be refused when those
before it are done, as where the log is missing, or a table, or the id is taken. They are run here
one after the other on the database, with what they have done standing when one is refused, and the
transaction around them takes it back.

So a write that is refused leaves every table and the log as they were. One that succeeds writes one
row of one table and appends one change, which tells the bodies before and after, and nothing else
is touched. That there is one row to be written over, and one table to write it in, is what every
database keeps from the empty one on: no two tables go by one name, and no two rows of a table have
one id.

The one write that is done by half is an upsert over another body in a table that keeps its bodies.
It succeeds and is logged, and no row is written.
-/

namespace TrialBoard

namespace Database

/-! ## Statements in a transaction -/

/-- What a writer does in a transaction, one statement after the other. A statement that fails
leaves what the statements before it have done. -/
abbrev Transaction := ExceptT DatabaseError (StateM Database)

namespace Transaction

/-- A statement that changes the database, or fails. -/
def execute (change : Database → Except DatabaseError Database) : Transaction Unit :=
  ExceptT.mk fun db =>
    match change db with
    | .ok changed => (.ok (), changed)
    | .error e => (.error e, db)

/-- A statement that only asks. -/
def ask {α : Type} (question : Database → Except DatabaseError α) : Transaction α :=
  ExceptT.mk fun db => (question db, db)

/-- Adds a row, then logs it. -/
def insertion (name : String) (row : Row) : Transaction Unit := do
  execute (·.addRow name row)
  execute (·.appendChange name none (some row.body))

/-- Adds a row or puts its body in the place of the one of its id, if the table lets it. -/
def put (name : String) (row : Row) (db : Database) : Except DatabaseError Database := do
  return db.setTable ((← db.table name).put row)

/-- Asks for the body of an id, puts a row there, then logs both. -/
def replacement (name : String) (row : Row) : Transaction Unit := do
  let old? ← ask (·.body? name row.id)
  execute (put name row)
  execute (·.appendChange name old? (some row.body))

end Transaction

/-- A transaction as a whole. What its statements have done is kept if all of them succeed, and
taken back if one fails. -/
def transact {α : Type} (db : Database) (tx : Transaction α) : Except DatabaseError α × Database :=
  match tx.run db with
  | (.ok a, changed) => (.ok a, changed)
  | (.error e, _) => (.error e, db)

namespace Transaction

variable {α β : Type}

theorem run_bind (tx : Transaction α) (next : α → Transaction β) (db : Database) :
    (tx >>= next).run db =
      match tx.run db with
      | (.ok a, changed) => (next a).run changed
      | (.error e, changed) => (.error e, changed) := by
  change (ExceptT.bindCont next (tx.run db).1) (tx.run db).2 = _
  cases tx.run db with
  | mk result changed => cases result <;> rfl

theorem run_execute (change : Database → Except DatabaseError Database) (db : Database) :
    (execute change).run db =
      match change db with
      | .ok changed => (.ok (), changed)
      | .error e => (.error e, db) := rfl

theorem run_ask (question : Database → Except DatabaseError α) (db : Database) :
    (ask question).run db = (question db, db) := rfl

end Transaction

open Transaction

variable {db : Database} {name : String} {t : Table}

theorem put_of_table (h : db.table name = .ok t) (row : Row) :
    put name row db = .ok (db.setTable (t.put row)) := by
  rw [put, h]
  rfl

theorem transact_insertion (db : Database) (name : String) (row : Row) :
    db.transact (insertion name row) =
      ((db.insert name row).map fun _ => (), db.orUnchanged (db.insert name row)) := by
  unfold transact insertion Database.insert
  rw [run_bind, run_execute]
  cases db.addRow name row with
  | error e => rfl
  | ok added =>
    dsimp only
    rw [run_execute, bind_ok]
    cases added.appendChange name none (some row.body) <;> rfl

theorem transact_replacement (db : Database) (name : String) (row : Row) :
    db.transact (replacement name row) =
      ((db.upsert name row).map fun _ => (), db.orUnchanged (db.upsert name row)) := by
  unfold transact replacement Database.upsert
  rw [run_bind, run_ask, body?]
  cases htable : db.table name with
  | error e => rfl
  | ok t =>
    rw [bind_ok]
    dsimp only [pure, Except.pure]
    rw [run_bind, run_execute, put_of_table htable]
    dsimp only
    rw [run_execute, bind_ok]
    cases (db.setTable (t.put row)).appendChange name _ (some row.body) <;> rfl


theorem table_of_table? (h : db.table? name = some t) : db.table name = .ok t := by
  rw [table, h]

theorem addRow_of_free {row : Row} (h : db.table? name = some t) (hfree : t.row? row.id = none) :
    db.addRow name row = .ok (db.setTable (t.put row)) := by
  unfold addRow Table.put
  rw [table_of_table? h, bind_ok]
  dsimp only
  rw [hfree]
  rfl

theorem appendChange_of_no_log (h : db.log? = none) (name : String) (old? new? : Option String) :
    db.appendChange name old? new? = .error (.noSuchTable logName) := by
  unfold appendChange Database.log
  rw [h]
  rfl

/-- Where the log is missing, the row has been added when the change is refused. -/
theorem run_insertion_of_no_log {row : Row} (h : db.table? name = some t) (hlog : db.log? = none)
    (hfree : t.row? row.id = none) :
    (insertion name row).run db = (.error (.noSuchTable logName), db.setTable (t.put row)) := by
  have hmissing : (db.setTable (t.put row)).log? = none := hlog
  rw [insertion, run_bind, run_execute, addRow_of_free h hfree]
  dsimp only
  rw [run_execute, appendChange_of_no_log hmissing]

theorem run_replacement_of_no_log (h : db.table? name = some t) (hlog : db.log? = none)
    (row : Row) :
    (replacement name row).run db = (.error (.noSuchTable logName), db.setTable (t.put row)) := by
  have hmissing : (db.setTable (t.put row)).log? = none := hlog
  rw [replacement, run_bind, run_ask, body?, table_of_table? h, bind_ok]
  dsimp only [pure, Except.pure]
  rw [run_bind, run_execute, put_of_table (table_of_table? h)]
  dsimp only
  rw [run_execute, appendChange_of_no_log hmissing]

/-! ## Sound databases -/

/-- Whether no two tables go by one name, and no two rows of a table have one id. Every database that
comes about is sound (`Arises.isSound`). -/
structure IsSound (db : Database) : Prop where
  tables : db.tables.Pairwise fun a b => sameName a.name b.name = false
  rows : ∀ t ∈ db.tables, (t.rows.map (·.id)).Nodup

variable {db db' : Database} {name : String} {t t' : Table} {row : Row}

theorem isSound_empty : Database.empty.IsSound :=
  ⟨List.Pairwise.nil, fun _ ht => absurd ht List.not_mem_nil⟩

theorem sameName_comm (a b : String) : sameName a b = sameName b a := by
  rw [Bool.eq_iff_iff, sameName_iff, sameName_iff, eq_comm]

/-- Names go by one name with the same others. -/
theorem sameName_congr {a b : String} (h : sameName a b = true) (c : String) :
    sameName a c = sameName b c := by
  rw [sameName, sameName, sameName_iff.1 h]

theorem isSound_setTable (hs : db.IsSound) (hrows : (t.rows.map (·.id)).Nodup) :
    (db.setTable t).IsSound := by
  constructor
  · refine List.pairwise_map.2 (hs.tables.imp fun {a b} hab => ?_)
    have hname : ∀ other : Table,
        sameName (if sameName t.name other.name then t else other).name other.name = true := by
      intro other
      split
      · assumption
      · exact sameName_iff.2 rfl
    rw [sameName_congr (hname a), sameName_comm, sameName_congr (hname b), sameName_comm]
    exact hab
  · intro t' ht'
    obtain ⟨other, hother, rfl⟩ := List.mem_map.1 ht'
    split
    · exact hrows
    · exact hs.rows other hother

theorem nodup_put (hrows : (t.rows.map (·.id)).Nodup) (row : Row) :
    ((t.put row).rows.map (·.id)).Nodup := by
  rcases t.put_cases row with ⟨hfree, hput⟩ | ⟨-, -, ⟨-, hput⟩ | ⟨-, hput⟩⟩ <;> rw [hput]
  · exact nodup_append_row hrows hfree
  · exact hrows
  · exact (map_id_replaceRow t.rows row).symm ▸ hrows

theorem table?_of_table (h : db.table name = .ok t) : db.table? name = some t := by
  unfold table at h
  split at h
  · rename_i t' ht
    rw [ht, Except.ok.inj h]
  · cases h

theorem nodup_of_table? (hs : db.IsSound) (h : db.table? name = some t) :
    (t.rows.map (·.id)).Nodup := hs.rows t (List.mem_of_find?_eq_some h)

theorem isSound_appendChange (hs : db.IsSound) {old? new? : Option String}
    (h : db.appendChange name old? new? = .ok db') : db'.IsSound := by
  obtain ⟨log, -, h⟩ := exists_of_bind_eq_ok h
  obtain rfl := Except.ok.inj h
  exact ⟨hs.tables, hs.rows⟩

theorem isSound_addRow (hs : db.IsSound) (h : db.addRow name row = .ok db') : db'.IsSound := by
  obtain ⟨t, ht, h⟩ := exists_of_bind_eq_ok h
  split at h
  · cases h
  · rename_i hfree
    obtain rfl := Except.ok.inj h
    have hrows := nodup_of_table? hs (table?_of_table ht)
    exact isSound_setTable hs (nodup_append_row hrows (Option.not_isSome_iff_eq_none.1 hfree))

theorem isSound_insert (hs : db.IsSound) (h : db.insert name row = .ok db') : db'.IsSound := by
  obtain ⟨added, hadd, h⟩ := exists_of_bind_eq_ok h
  exact isSound_appendChange (isSound_addRow hs hadd) h

theorem isSound_upsert (hs : db.IsSound) (h : db.upsert name row = .ok db') : db'.IsSound := by
  obtain ⟨t, ht, h⟩ := exists_of_bind_eq_ok h
  have hrows := nodup_of_table? hs (table?_of_table ht)
  exact isSound_appendChange (isSound_setTable hs (nodup_put hrows row)) h

theorem isSound_createTable (hs : db.IsSound) (h : db.createTable name = .ok db') :
    db'.IsSound := by
  unfold createTable at h
  split at h
  · cases h
  · split at h
    · exact Except.ok.inj h ▸ hs
    · rename_i hnew
      split at h
      · cases h
      · obtain rfl := Except.ok.inj h
        have hother := List.find?_eq_none.1 (Option.not_isSome_iff_eq_none.1 hnew)
        refine ⟨List.pairwise_append.2 ⟨hs.tables, List.pairwise_singleton _ _, ?_⟩, ?_⟩
        · intro a ha b hb
          rw [List.mem_singleton.1 hb, sameName_comm]
          exact Bool.not_eq_true _ ▸ hother a ha
        · intro t ht
          rcases List.mem_append.1 ht with ht | ht
          · exact hs.rows t ht
          · rw [List.mem_singleton.1 ht]
            exact List.nodup_nil

theorem isSound_createTables (hs : db.IsSound) (names : List String) :
    (db.createTables names).2.IsSound := by
  induction names generalizing db with
  | nil => exact hs
  | cons name names ih =>
    unfold createTables
    split
    · rename_i created hcreate
      exact ih (isSound_createTable hs hcreate)
    · exact hs

theorem isSound_ensure (hs : db.IsSound) (names : CollectionNames) :
    (db.ensure names).2.IsSound := by
  have hcreated := isSound_createTables hs names.toList
  unfold ensure
  split
  · rename_i created hcreate
    rw [hcreate] at hcreated
    unfold createLog
    split <;> exact ⟨hcreated.tables, hcreated.rows⟩
  · exact hcreated

/-- Whatever was done to a database that began empty, it is sound. -/
theorem isSound_execute (hs : db.IsSound) (statement : Statement) :
    (db.execute statement).IsSound := by
  cases statement with
  | ensure names => exact isSound_ensure hs names
  | addRow table row => exact orUnchanged_of hs fun _ => isSound_addRow hs
  | appendChange table old? new? => exact orUnchanged_of hs fun _ => isSound_appendChange hs
  | insert table row => exact orUnchanged_of hs fun _ => isSound_insert hs
  | upsert table row => exact orUnchanged_of hs fun _ => isSound_upsert hs

theorem isSound_dropTable (hs : db.IsSound) (h : db.dropTable name = .ok db') : db'.IsSound := by
  obtain ⟨t, -, h⟩ := exists_of_bind_eq_ok h
  obtain rfl := Except.ok.inj h
  exact ⟨hs.tables.sublist List.filter_sublist, fun t ht => hs.rows t (List.mem_filter.1 ht).1⟩

theorem isSound_dropLog (hs : db.IsSound) (h : db.dropLog = .ok db') : db'.IsSound := by
  obtain ⟨log, -, h⟩ := exists_of_bind_eq_ok h
  obtain rfl := Except.ok.inj h
  exact ⟨hs.tables, hs.rows⟩

/-- Whether a database can come about from the empty one, by statements of any programs and by tables
and the log being taken away. -/
inductive Arises : Database → Prop
  | empty : Arises .empty
  | execute {db : Database} (h : Arises db) (statement : Statement) : Arises (db.execute statement)
  | dropTable {db db' : Database} {name : String} (h : Arises db)
    (hdrop : db.dropTable name = .ok db') : Arises db'
  | dropLog {db db' : Database} (h : Arises db) (hdrop : db.dropLog = .ok db') : Arises db'

theorem Arises.isSound (h : db.Arises) : db.IsSound := by
  induction h with
  | empty => exact isSound_empty
  | execute _ statement ih => exact isSound_execute ih statement
  | dropTable _ hdrop ih => exact isSound_dropTable ih hdrop
  | dropLog _ hdrop ih => exact isSound_dropLog ih hdrop

/-! ## One row and one change -/

/-- What a row is written over: the row of its id, which it takes the place of, or none, and then it
comes last. -/
structure Over (row : Row) (old? : Option Row) (rows rows' : List Row) : Prop where
  place : ∃ before after, rows = before ++ old?.toList ++ after ∧ rows' = before ++ row :: after ∧
    (old? = none → after = [])
  id_old : ∀ old ∈ old?, old.id = row.id
  isNew : old? = none → ∀ r ∈ rows, r.id ≠ row.id

/-- A body that is put is written over the one of its id, unless that is another one and the table
keeps it. -/
theorem over_put (hrows : (t.rows.map (·.id)).Nodup)
    (hput : ∀ old, t.row? row.id = some old → keepsBodies t.name = true → old = row) :
    Over row (t.row? row.id) t.rows (t.put row).rows := by
  rcases t.put_cases row with ⟨hfree, happended⟩ | ⟨old, hheld, hcases⟩
  · rw [hfree, happended]
    refine ⟨⟨t.rows, [], by simp, rfl, fun _ => rfl⟩, nofun, fun _ r hr hid => ?_⟩
    exact List.find?_eq_none.1 hfree r hr (beq_iff_eq.2 hid)
  · obtain ⟨hid, before, after, hsplit, -⟩ := List.find?_eq_some_iff_append.1 hheld
    have hid : old.id = row.id := beq_iff_eq.1 hid
    have hwritten : (t.put row).rows = before ++ row :: after := by
      rcases hcases with ⟨hkeeps, hsame⟩ | ⟨-, hreplaced⟩
      · rw [hsame, hsplit, hput old hheld hkeeps]
      · rw [hsplit, List.map_append, List.map_cons, List.nodup_middle, List.nodup_cons,
          List.mem_append] at hrows
        have hother : ∀ rows : List Row, (∀ r ∈ rows, r.id ≠ row.id) →
            rows.map (fun r => if r.id = row.id then row else r) = rows := fun rows h =>
          (List.map_congr_left fun r hr => if_neg (h r hr)).trans (List.map_id' rows)
        rw [hreplaced]
        dsimp only
        rw [hsplit, List.map_append, List.map_cons, if_pos hid, hother, hother]
        · exact fun r hr heq => hrows.1 (.inr (List.mem_map.2 ⟨r, hr, heq.trans hid.symm⟩))
        · exact fun r hr heq => hrows.1 (.inl (List.mem_map.2 ⟨r, hr, heq.trans hid.symm⟩))
    rw [hheld]
    refine ⟨⟨before, after, by rw [hsplit]; simp, hwritten, nofun⟩, fun old' hold' => ?_, nofun⟩
    rw [← Option.some.inj hold']
    exact hid

/-- Whether a database has one change more than another in its log, which is the last there and tells
the bodies before and after of a row of a table. -/
def IsLogged (name : String) (row : Row) (old? : Option Row) (db db' : Database) : Prop :=
  ∃ log log', db.log? = some log ∧ db'.log? = some log' ∧
    log'.rows = log.rows ++ [⟨log.lastSeq + 1, name, old?.map (·.body), some row.body⟩] ∧
    log'.lastSeq = log.lastSeq + 1 ∧ log'.isIndexed = log.isIndexed

/-- Whether a database is another one but for one row, which is written over `old?` in the table of a
name, and one change, which tells the bodies before and after. -/
structure IsWrite (name : String) (row : Row) (old? : Option Row) (db db' : Database) : Prop where
  tables : ∃ before t after rows, db.tables = before ++ t :: after ∧ sameName name t.name = true ∧
    Over row old? t.rows rows ∧ db'.tables = before ++ { t with rows } :: after
  log : IsLogged name row old? db db'

theorem eq_of_sameName (hs : db.IsSound) (ht : t ∈ db.tables) (ht' : t' ∈ db.tables)
    (h : sameName t.name t'.name = true) : t = t' := by
  by_contra hne
  have hsymm : Std.Symm fun a b : Table => sameName a.name b.name = false :=
    ⟨fun a b hab => (sameName_comm b.name a.name).trans hab⟩
  rw [hs.tables.forall ht ht' hne] at h
  cases h

/-- A write that leaves the tables as they are is one of a row that is there. -/
theorem IsWrite.mem_of_tables_eq (hs : db.IsSound) {old? : Option Row}
    (h : IsWrite name row old? db db') (hsame : db'.tables = db.tables)
    (ht : db.table? name = some t) : row ∈ t.rows := by
  obtain ⟨before, t', after, rows, hsplit, hname, hover, hafter⟩ := h.tables
  have hmem : t' ∈ db.tables := hsplit ▸ List.mem_append_right _ List.mem_cons_self
  have hnames : sameName t.name t'.name = true := by
    rw [← sameName_congr (sameName_of_table? ht)]
    exact hname
  obtain rfl := eq_of_sameName hs (List.mem_of_find?_eq_some ht) hmem hnames
  rw [hsame, hsplit] at hafter
  have hrows : t = { t with rows } := List.head_eq_of_cons_eq (List.append_cancel_left hafter)
  obtain ⟨⟨earlier, later, -, hwritten, -⟩, -, -⟩ := hover
  rw [hrows, hwritten]
  exact List.mem_append_right _ List.mem_cons_self

theorem setTable_eq (hs : db.IsSound) (ht : db.table? name = some t) (hname : t'.name = t.name) :
    ∃ before after, db.tables = before ++ t :: after ∧
      (db.setTable t').tables = before ++ t' :: after := by
  obtain ⟨hsame, before, after, hsplit, hbefore⟩ := List.find?_eq_some_iff_append.1 ht
  have htables := hs.tables
  rw [hsplit, List.pairwise_append, List.pairwise_cons] at htables
  obtain ⟨-, ⟨hafter, -⟩, hcross⟩ := htables
  have hother : ∀ tables : List Table, (∀ other ∈ tables, sameName t.name other.name = false) →
      tables.map (fun other => if sameName t'.name other.name then t' else other) = tables := by
    intro tables h
    refine (List.map_congr_left fun other hmem => ?_).trans (List.map_id' tables)
    rw [hname, h other hmem, if_neg Bool.false_ne_true]
  refine ⟨before, after, hsplit, ?_⟩
  rw [setTable, hsplit, List.map_append, List.map_cons, hother before, hother after hafter, hname,
    if_pos (sameName_iff.2 rfl)]
  intro other hmem
  rw [sameName_comm]
  exact hcross other hmem t List.mem_cons_self

end Database

/-! ## Writes of a store -/

namespace Write

/-- Whether a write may only add a row. -/
def Adds : Write → Prop
  | insert .. => True
  | upsert .. => False

/-- What a write makes of a database. -/
def effect (names : CollectionNames) (db : Database) (w : Write) : Except DatabaseError Database :=
  match w with
  | insert c _ _ => db.insert (names.get c) (TableStore.rowOf w.id w.row)
  | upsert c _ _ => db.upsert (names.get c) (TableStore.rowOf w.id w.row)

/-- The statements of a write, in a transaction. -/
def transaction (names : CollectionNames) (w : Write) : Database.Transaction Unit :=
  match w with
  | insert c _ _ => .insertion (names.get c) (TableStore.rowOf w.id w.row)
  | upsert c _ _ => .replacement (names.get c) (TableStore.rowOf w.id w.row)

theorem transact_transaction (names : CollectionNames) (db : Database) (w : Write) :
    db.transact (w.transaction names) =
      ((w.effect names db).map fun _ => (), db.orUnchanged (w.effect names db)) := by
  cases w with
  | insert c fresh doc => exact db.transact_insertion (names.get c) _
  | upsert c id doc => exact db.transact_replacement (names.get c) _

end Write

namespace TableStore

variable {s s' : TableStore} {w : Write}

theorem write_eq_effect (s : TableStore) (w : Write) :
    s.write w = (answer w.collection (w.effect s.names s.database)).map
      fun database => { s with database } := by
  cases w with
  | insert c fresh doc =>
    change (s.insert c fresh doc).map Prod.snd = (answer c (s.database.insert (s.tableName c)
      (rowOf (doc.identified fresh).1 (doc.identified fresh).2))).map _
    unfold insert
    obtain ⟨id, row⟩ := doc.identified fresh
    dsimp only
    cases s.database.insert (s.tableName c) (rowOf id row) <;> rfl
  | upsert c id doc =>
    change s.upsert c id doc =
      (answer c (s.database.upsert (s.tableName c) (rowOf id (doc.withId id)))).map _
    unfold upsert
    cases s.database.upsert (s.tableName c) (rowOf id (doc.withId id)) <;> rfl

/-- A write succeeds just where the table and the log are there, and the row may be put into the
table. -/
theorem exists_write_iff (s : TableStore) (w : Write) :
    (∃ s', s.write w = .ok s') ↔ ∃ t log, s.database.table? (s.tableName w.collection) = some t ∧
      s.database.log? = some log ∧ (w.Adds → t.row? w.id = none) := by
  constructor
  · rintro ⟨s', hwrite⟩
    obtain ⟨t, log, ht, hlog, -⟩ := exists_written hwrite
    refine ⟨t, log, ht, hlog, fun hadds => ?_⟩
    cases w with
    | upsert c id doc => exact hadds.elim
    | insert c fresh doc =>
      change s.database.table? (s.tableName c) = some t at ht
      rw [write, insert_eq ht hlog] at hwrite
      split at hwrite
      · cases hwrite
      · exact Option.not_isSome_iff_eq_none.1 ‹_›
  · rintro ⟨t, log, ht, hlog, hfree⟩
    cases w with
    | upsert c id doc => exact ⟨_, upsert_eq ht hlog id doc⟩
    | insert c fresh doc =>
      change s.database.table? (s.tableName c) = some t at ht
      have hnone : t.row? (doc.identified fresh).1 = none := hfree trivial
      rw [write, insert_eq ht hlog, hnone]
      exact ⟨_, rfl⟩

/-- What a write does to a store as a whole: all of it, or nothing. -/
structure IsAtomic (s : TableStore) (w : Write) : Prop where
  succeeds_iff : (∃ s', s.write w = .ok s') ↔
    ∃ t log, s.database.table? (s.tableName w.collection) = some t ∧
      s.database.log? = some log ∧ (w.Adds → t.row? w.id = none)
  succeeded : ∀ s', s.write w = .ok s' →
    s.database.transact (w.transaction s.names) = (.ok (), s'.database) ∧
      s' = { s with database := s'.database } ∧
      ∃ old?, s.database.IsWrite (s.tableName w.collection) (rowOf w.id w.row) old? s'.database ∧
        (w.Adds → old? = none)
  failed : ∀ e, s.write w = .error e → ∃ cause, e = .queryFailed w.collection cause.message ∧
    s.database.transact (w.transaction s.names) = (.error cause, s.database)

/-- Whether a write is an upsert over a row with another body in a table that keeps its bodies. -/
def KeepsOld (s : TableStore) (w : Write) (old : Row) : Prop :=
  ¬ w.Adds ∧ (∃ log, s.database.log? = some log) ∧
    ∃ t, s.database.table? (s.tableName w.collection) = some t ∧ keepsBodies t.name = true ∧
      t.row? w.id = some old ∧ old ≠ rowOf w.id w.row

/-- What an upsert does that a table keeps from its rows: it succeeds and is logged, and every table
stays as it is. -/
theorem write_of_keepsOld (hs : s.database.IsSound) {old : Row} (h : s.KeepsOld w old) :
    ∃ s', s.write w = .ok s' ∧ s' = { s with database := s'.database } ∧
      s'.database.tables = s.database.tables ∧
      s.database.IsLogged (s.tableName w.collection) (rowOf w.id w.row) (some old) s'.database := by
  obtain ⟨hupsert, ⟨log, hlog⟩, t, ht, hkeeps, hheld, -⟩ := h
  obtain ⟨s', hwrite⟩ := (exists_write_iff s w).2 ⟨t, log, ht, hlog, fun hadds => absurd hadds hupsert⟩
  have hput : t.put (rowOf w.id w.row) = t := by
    rcases t.put_cases (rowOf w.id w.row) with ⟨hfree, -⟩ | ⟨-, -, ⟨-, hput⟩ | ⟨hreplaces, -⟩⟩
    · exact absurd (hfree.symm.trans hheld) nofun
    · exact hput
    · exact absurd (hkeeps.symm.trans hreplaces) nofun
  obtain rfl := write_eq_ok hwrite ht hlog
  refine ⟨_, hwrite, rfl, ?_, log, _, hlog, rfl, ?_, rfl, rfl⟩
  · obtain ⟨before, after, hsplit, hset⟩ := Database.setTable_eq hs ht rfl
    change (s.database.setTable (t.put (rowOf w.id w.row))).tables = _
    rw [hput, hset, hsplit]
  · change _ ++ [(⟨_, _, (t.row? w.id).map (·.body), _⟩ : LogRow)] = _
    rw [hheld]

theorem not_isAtomic_of_keepsOld (hs : s.database.IsSound) {old : Row} (h : s.KeepsOld w old) :
    ¬ s.IsAtomic w := by
  intro hatomic
  obtain ⟨s', hwrite, -, htables, -⟩ := write_of_keepsOld hs h
  obtain ⟨-, -, t, ht, -, hheld, hne⟩ := h
  obtain ⟨-, -, old?, hchange, -⟩ := hatomic.succeeded s' hwrite
  have hmem := hchange.mem_of_tables_eq hs htables ht
  have hid : old.id = w.id := by simpa using List.find?_some hheld
  exact hne (List.inj_on_of_nodup_map (Database.nodup_of_table? hs ht)
    (List.mem_of_find?_eq_some hheld) hmem hid)

theorem isWrite_write (hs : s.database.IsSound) (hkept : ∀ old, ¬ s.KeepsOld w old)
    (h : s.write w = .ok s') :
    ∃ old?, s.database.IsWrite (s.tableName w.collection) (rowOf w.id w.row) old? s'.database ∧
      (w.Adds → old? = none) := by
  obtain ⟨t, log, ht, hlog, hfree⟩ := (exists_write_iff s w).1 ⟨s', h⟩
  obtain rfl := write_eq_ok h ht hlog
  have hput : ∀ old, t.row? w.id = some old → keepsBodies t.name = true →
      old = rowOf w.id w.row := by
    intro old hheld hkeeps
    by_contra hne
    have hupsert : ¬ w.Adds := fun hadds => absurd ((hfree hadds).symm.trans hheld) nofun
    exact hkept old ⟨hupsert, ⟨log, hlog⟩, t, ht, hkeeps, hheld, hne⟩
  refine ⟨t.row? w.id, ⟨?_, ?_⟩, hfree⟩
  · obtain ⟨before, after, hsplit, hset⟩ :=
      Database.setTable_eq hs ht (t.name_put (rowOf w.id w.row))
    have hrows := Database.nodup_of_table? hs ht
    have hname := Database.sameName_of_table? ht
    refine ⟨before, t, after, _, hsplit, hname, Database.over_put hrows hput, ?_⟩
    change (s.database.setTable (t.put (rowOf w.id w.row))).tables = _
    have hsame : t.put (rowOf w.id w.row) = { t with rows := (t.put (rowOf w.id w.row)).rows } := by
      rcases t.put_cases (rowOf w.id w.row) with ⟨-, hcase⟩ | ⟨-, -, ⟨-, hcase⟩ | ⟨-, hcase⟩⟩ <;>
        rw [hcase]
    rw [hset, ← hsame]
  · exact ⟨log, _, hlog, rfl, rfl, rfl, rfl⟩

theorem isAtomic (hs : s.database.IsSound) (hkept : ∀ old, ¬ s.KeepsOld w old) :
    s.IsAtomic w := by
  have hwrite := write_eq_effect s w
  have htransact := w.transact_transaction s.names s.database
  refine ⟨exists_write_iff s w, fun s' h => ?_, fun e h => ?_⟩
  · cases heffect : w.effect s.names s.database with
    | error cause =>
      rw [hwrite, heffect] at h
      cases h
    | ok changed =>
      rw [hwrite, heffect] at h
      obtain rfl := Except.ok.inj h
      rw [heffect] at htransact
      exact ⟨htransact, rfl, isWrite_write hs hkept (hwrite.trans (by rw [heffect]; rfl))⟩
  · cases heffect : w.effect s.names s.database with
    | ok changed =>
      rw [hwrite, heffect] at h
      cases h
    | error cause =>
      rw [hwrite, heffect] at h
      rw [heffect] at htransact
      exact ⟨cause, (Except.error.inj h).symm, htransact⟩

/-- Where the log is missing, the row has been written when the write is refused, and only the
transaction takes it back. -/
theorem run_transaction_of_no_log {t : Table} (w : Write)
    (ht : s.database.table? (s.tableName w.collection) = some t) (hlog : s.database.log? = none)
    (hfree : w.Adds → t.row? w.id = none) :
    (w.transaction s.names).run s.database =
      (.error (.noSuchTable logName), s.database.setTable (t.put (rowOf w.id w.row))) := by
  cases w with
  | insert c fresh doc => exact Database.run_insertion_of_no_log ht hlog (hfree trivial)
  | upsert c id doc => exact Database.run_replacement_of_no_log ht hlog _

end TableStore

/-! ## Recording -/

namespace Recorder

variable {s s' : TableStore} {stamp : Stamp} {entry : Entry}

/-- Recording an entry in a store that can be opened is the transaction of its write. -/
theorem record_eq_transact (hopen : s.blocked? = none) {w : Write}
    (h : entry.write? stamp = some w) :
    record s stamp entry =
      let (result, database) := s.database.transact (w.transaction s.names)
      (((TableStore.answer w.collection result).map fun _ => w.id).mapError .error,
        { s with database }) := by
  rw [record_of_write hopen h, TableStore.write_eq_effect, Write.transact_transaction]
  cases w.effect s.names s.database <;> rfl

/-- What recording an entry does to a store as a whole: all of its write, or nothing. -/
structure RecordsAtomically (s : TableStore) (stamp : Stamp) (entry : Entry) : Prop where
  recorded : ∀ id s', record s stamp entry = (.ok id, s') → ∃ w, entry.write? stamp = some w ∧
    w.id = id ∧ s.write w = .ok s' ∧ s' = { s with database := s'.database } ∧
    s.database.IsWrite (s.tableName entry.collection) (TableStore.rowOf id w.row) none s'.database
  refused : ∀ failure s', record s stamp entry = (.error failure, s') → s' = s
  transacted : s.blocked? = none → ∀ w, entry.write? stamp = some w → record s stamp entry =
    let (result, database) := s.database.transact (w.transaction s.names)
    (((TableStore.answer w.collection result).map fun _ => w.id).mapError .error,
      { s with database })

theorem record_of_blocked {reason : String} (h : s.blocked? = some reason) (stamp : Stamp)
    (entry : Entry) : ∃ failure, record s stamp entry = (.error failure, s) := by
  unfold record
  split
  · exact ⟨_, rfl⟩
  · rw [DocumentStore.changeInSession, TableStore.openSession_of_blocked h]
    exact ⟨_, rfl⟩

/-- An entry is recorded by its write, or the store is left as it is. -/
theorem record_cases (s : TableStore) (stamp : Stamp) (entry : Entry) :
    (∃ w s', entry.write? stamp = some w ∧ s.write w = .ok s' ∧
      record s stamp entry = (.ok w.id, s')) ∨
    ∃ failure, record s stamp entry = (.error failure, s) := by
  cases hblocked : s.blocked? with
  | some reason => exact .inr (record_of_blocked hblocked stamp entry)
  | none =>
    cases hw : entry.write? stamp with
    | none => exact .inr (record_of_no_write s hw)
    | some w =>
      rw [record_of_write hblocked hw]
      cases hwrite : s.write w with
      | ok s' => exact .inl ⟨w, s', rfl, hwrite, rfl⟩
      | error e => exact .inr ⟨_, rfl⟩

theorem adds_of_write? {w : Write} (h : entry.write? stamp = some w) : w.Adds := by
  obtain ⟨row, -, rfl⟩ := Entry.write?_eq_some h
  trivial

theorem recordsAtomically (hs : s.database.IsSound) (stamp : Stamp) (entry : Entry) :
    RecordsAtomically s stamp entry := by
  refine ⟨fun id s' h => ?_, fun failure s' h => ?_, fun hopen w hw => record_eq_transact hopen hw⟩
  · rcases record_cases s stamp entry with ⟨w, s'', hw, hwrite, hrecord⟩ | ⟨failure, hrecord⟩
    · rw [hrecord] at h
      obtain ⟨hid, rfl⟩ := Prod.mk.inj h
      obtain rfl := Except.ok.inj hid
      have hadds := adds_of_write? hw
      have hatomic := TableStore.isAtomic hs fun old (hkept : s.KeepsOld w old) => hkept.1 hadds
      obtain ⟨-, hframe, old?, hchange, hnew⟩ := hatomic.succeeded s'' hwrite
      rw [hnew hadds, Entry.collection_of_write? hw] at hchange
      exact ⟨w, hw, rfl, hwrite, hframe, hchange⟩
    · rw [hrecord] at h
      cases (Prod.mk.inj h).1
  · rcases record_cases s stamp entry with ⟨w, s'', hw, hwrite, hrecord⟩ | ⟨failure', hrecord⟩
    · rw [hrecord] at h
      cases (Prod.mk.inj h).1
    · rw [hrecord] at h
      exact (Prod.mk.inj h).2.symm

end Recorder

namespace TableStore

variable {s : TableStore}

/-- Whatever tables the database of a store has, and with or without a log, recording an entry is
atomic, and so is every write but an upsert over a row with another body in a table that keeps its
bodies. Such an upsert succeeds and is logged, and leaves every table as it is. -/
theorem writes_are_atomic_iff (hs : s.database.IsSound) :
    (∀ w, s.IsAtomic w ↔ ∀ old, ¬ s.KeepsOld w old) ∧
    (∀ w old, s.KeepsOld w old → ∃ s', s.write w = .ok s' ∧
      s' = { s with database := s'.database } ∧ s'.database.tables = s.database.tables ∧
      s.database.IsLogged (s.tableName w.collection) (rowOf w.id w.row) (some old) s'.database) ∧
    ∀ stamp entry, Recorder.RecordsAtomically s stamp entry :=
  ⟨fun _ => ⟨fun hatomic _ hkept => not_isAtomic_of_keepsOld hs hkept hatomic, isAtomic hs⟩,
    fun _ _ => write_of_keepsOld hs, Recorder.recordsAtomically hs⟩

theorem not_keepsOld_of_table {w : Write} {t : Table}
    (ht : s.database.table? (s.tableName w.collection) = some t)
    (hkeeps : keepsBodies t.name = false) (old : Row) : ¬ s.KeepsOld w old := by
  rintro ⟨-, -, t', ht', hkept, -⟩
  rw [ht] at ht'
  rw [← Option.some.inj ht', hkeeps] at hkept
  cases hkept

/-- An upsert over a row, where the log is missing and where it is there. -/
theorem upsert_taken_back_without_log :
    let store : Option ChangeLog → TableStore := fun log? =>
      { path := "lab.db", names := .ofFn Collection.name
        database := { tables := [{ name := "tests", rows := [⟨"t", "1"⟩, ⟨"u", "2"⟩] }], log? } }
    let w := Write.upsert .tests "t" []
    (∀ log?, (store log?).database.IsSound) ∧
    ((w.transaction (store none).names).run (store none).database).2 ≠ (store none).database ∧
    (∃ cause, (store none).database.transact (w.transaction (store none).names) =
      (.error cause, (store none).database)) ∧
    ∃ s', (store (some {})).write w = .ok s' ∧ ∃ old?,
      (store (some {})).database.IsWrite "tests" (rowOf "t" [("id", .string "t")]) old?
        s'.database := by
  intro store w
  have hsound : ∀ log?, (store log?).database.IsSound := fun log? =>
    ⟨List.pairwise_singleton _ _, List.forall_mem_singleton.2 (by decide)⟩
  have ht : ∀ log?, (store log?).database.table? "tests" =
      some { name := "tests", rows := [⟨"t", "1"⟩, ⟨"u", "2"⟩] } := fun _ =>
    List.find?_cons_of_pos (Database.sameName_iff.2 rfl)
  have hkept : ∀ log? old, ¬ (store log?).KeepsOld w old := fun log? =>
    not_keepsOld_of_table (ht log?) (by decide +kernel)
  refine ⟨hsound, ?_, ?_, ?_⟩
  · rw [run_transaction_of_no_log w (ht none) rfl fun h => h.elim]
    decide +kernel
  · have hatomic := ((writes_are_atomic_iff (hsound none)).1 w).2 (hkept none)
    cases hwrite : (store none).write w with
    | ok s' =>
      obtain ⟨t, log, -, hlog, -⟩ := hatomic.succeeds_iff.1 ⟨s', hwrite⟩
      cases hlog
    | error e =>
      obtain ⟨cause, -, htransact⟩ := hatomic.failed e hwrite
      exact ⟨cause, htransact⟩
  · have hatomic := ((writes_are_atomic_iff (hsound (some {}))).1 w).2 (hkept (some {}))
    obtain ⟨s', hwrite⟩ := hatomic.succeeds_iff.2 ⟨_, {}, ht _, rfl, fun h => h.elim⟩
    obtain ⟨-, -, old?, hchange, -⟩ := hatomic.succeeded s' hwrite
    exact ⟨s', hwrite, old?, hchange⟩

/-- An upsert over a row of a table that keeps its bodies. -/
theorem upsert_logged_but_not_done :
    let s : TableStore :=
      { path := "lab.db", names := ⟨"experiments", "transformations", "excluded", "analytics"⟩
        database := { tables := [{ name := "excluded", rows := [⟨"t", "1"⟩] }], log? := some {} } }
    s.names.fault? = none ∧ s.database.IsSound ∧ ¬ s.IsAtomic (.upsert .tests "t" []) := by
  intro s
  have hsound : s.database.IsSound :=
    ⟨List.pairwise_singleton _ _, List.forall_mem_singleton.2 (by decide)⟩
  have hkept : s.KeepsOld (.upsert .tests "t" []) ⟨"t", "1"⟩ :=
    ⟨id, ⟨_, rfl⟩, { name := "excluded", rows := [⟨"t", "1"⟩] },
      List.find?_cons_of_pos (Database.sameName_iff.2 rfl), by decide +kernel, rfl, by decide⟩
  exact ⟨by decide, hsound, not_isAtomic_of_keepsOld hsound hkept⟩

end TableStore

end TrialBoard
