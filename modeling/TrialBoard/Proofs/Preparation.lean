import TrialBoard.Proofs.LogReplay

/-!
# Preparation

To prepare a database is to create the tables of the collections and the log with its index, where
they are missing. In an empty database that succeeds for the names which the database leaves free.
From then on everything is there: no write takes a table away, and no table can get the name of the
index any more, so a preparation finds nothing to do and changes nothing, however often it is
repeated and whatever was written before it.

The settings accept more names than are free. A name that starts with `sqlite_` is kept for the
database, and a table that is named as the index leaves no room for it.
-/

namespace TrialBoard

/-! ## Statements -/

namespace Database

/-- What a writer has a database do: any of the programs that use it, under whatever names, or one
that writes behind their backs. -/
inductive Statement where
  | ensure (names : CollectionNames)
  | addRow (table : String) (row : Row)
  | appendChange (table : String) (old? new? : Option String)
  | insert (table : String) (row : Row)
  | upsert (table : String) (row : Row)

/-- What a change leaves, the database as it was if it is refused. -/
def orUnchanged (db : Database) : Except DatabaseError Database → Database
  | .ok changed => changed
  | .error _ => db

/-- What holds of a database and of what a change makes of it holds of what the change leaves. -/
theorem orUnchanged_of {P : Database → Prop} {db : Database}
    {result : Except DatabaseError Database} (h : P db)
    (hresult : ∀ changed, result = .ok changed → P changed) : P (db.orUnchanged result) := by
  cases result with
  | ok changed => exact hresult changed rfl
  | error e => exact h

/-- The database after a statement. -/
def execute (db : Database) : Statement → Database
  | .ensure names => (db.ensure names).2
  | .addRow table row => db.orUnchanged (db.addRow table row)
  | .appendChange table old? new? => db.orUnchanged (db.appendChange table old? new?)
  | .insert table row => db.orUnchanged (db.insert table row)
  | .upsert table row => db.orUnchanged (db.upsert table row)

/-- The database after statements, one after the other. -/
def executeAll (db : Database) (statements : List Statement) : Database :=
  statements.foldl execute db

/-- Whether a database has everything that a preparation would create. -/
structure IsPrepared (names : CollectionNames) (db : Database) : Prop where
  tables : ∀ c, (db.table? (names.get c)).isSome = true
  /-- No table has the name of the index. -/
  index : db.table? logIndexName = none
  log : ∃ log, db.log? = some log ∧ log.isIndexed = true

variable {names : CollectionNames} {db db' : Database}

theorem isPrepared_setTable (h : db.IsPrepared names) (t : Table) :
    (db.setTable t).IsPrepared names := by
  refine ⟨fun c => ?_, ?_, h.log⟩
  · rw [table?_setTable, Option.isSome_map]
    exact h.tables c
  · rw [table?_setTable, h.index, Option.map_none]

theorem isPrepared_appendChange (h : db.IsPrepared names) {table : String}
    {old? new? : Option String} (hchange : db.appendChange table old? new? = .ok db') :
    db'.IsPrepared names := by
  obtain ⟨log, hlog, hindexed⟩ := h.log
  unfold appendChange Database.log at hchange
  rw [hlog] at hchange
  obtain rfl := Except.ok.inj hchange
  exact ⟨h.tables, h.index, _, rfl, hindexed⟩

theorem isPrepared_addRow (h : db.IsPrepared names) {table : String} {row : Row}
    (hrow : db.addRow table row = .ok db') : db'.IsPrepared names := by
  unfold addRow at hrow
  obtain ⟨t, -, hrow⟩ := exists_of_bind_eq_ok hrow
  split at hrow
  · cases hrow
  · obtain rfl := Except.ok.inj hrow
    exact isPrepared_setTable h _

theorem isPrepared_insert (h : db.IsPrepared names) {table : String} {row : Row}
    (hrow : db.insert table row = .ok db') : db'.IsPrepared names := by
  obtain ⟨added, hadded, hchange⟩ := exists_of_bind_eq_ok hrow
  exact isPrepared_appendChange (isPrepared_addRow h hadded) hchange

theorem isPrepared_upsert (h : db.IsPrepared names) {table : String} {row : Row}
    (hrow : db.upsert table row = .ok db') : db'.IsPrepared names := by
  obtain ⟨t, -, hchange⟩ := exists_of_bind_eq_ok hrow
  exact isPrepared_appendChange (isPrepared_setTable h _) hchange

/-- The name of the index is taken, so no table is created under it. -/
theorem isPrepared_createTable (h : db.IsPrepared names) {name : String}
    (hcreate : db.createTable name = .ok db') : db'.IsPrepared names := by
  obtain ⟨log, hlog, hindexed⟩ := h.log
  have hkept := (TableStore.createTable_isSome hcreate).2
  unfold createTable at hcreate
  split at hcreate
  · cases hcreate
  · split at hcreate
    · exact Except.ok.inj hcreate ▸ h
    · split at hcreate
      · cases hcreate
      · rename_i hname
        obtain rfl := Except.ok.inj hcreate
        have hother : sameName logIndexName name = false := by
          rw [hlog, Option.any_some, hindexed, Bool.true_and, Bool.not_eq_true] at hname
          rw [Bool.eq_false_iff, ne_eq, sameName_iff] at hname ⊢
          exact fun hsame => hname hsame.symm
        refine ⟨fun c => hkept _ (h.tables c), ?_, log, hlog, hindexed⟩
        have hindex := h.index
        unfold table? at hindex ⊢
        rw [List.find?_append, hindex, Option.none_or, List.find?_singleton, hother]
        rfl

theorem isPrepared_createTables (h : db.IsPrepared names) (others : List String) :
    (db.createTables others).2.IsPrepared names := by
  induction others generalizing db with
  | nil => exact h
  | cons name others ih =>
    unfold createTables
    split
    · rename_i created hcreate
      exact ih (isPrepared_createTable h hcreate)
    · exact h

/-- The log with its index is not created again. -/
theorem createLog_of_isPrepared (h : db.IsPrepared names) : db.createLog = (.ok (), db) := by
  obtain ⟨log, hlog, hindexed⟩ := h.log
  have hsame : ({ log with isIndexed := true } : ChangeLog) = log := by
    rw [← hindexed]
  simp only [createLog, h.index, Option.isSome_none, Bool.false_eq_true, if_false, hlog,
    Option.getD_some, hsame]
  rw [← hlog]

theorem isPrepared_ensure (h : db.IsPrepared names) (others : CollectionNames) :
    (db.ensure others).2.IsPrepared names := by
  have hcreated := isPrepared_createTables h others.toList
  unfold ensure
  split
  · rename_i created hcreate
    rw [hcreate] at hcreated
    rw [createLog_of_isPrepared hcreated]
    exact hcreated
  · exact hcreated

/-- No statement undoes a preparation. -/
theorem isPrepared_execute (h : db.IsPrepared names) (statement : Statement) :
    (db.execute statement).IsPrepared names := by
  cases statement with
  | ensure others => exact isPrepared_ensure h others
  | addRow table row => exact orUnchanged_of h fun _ => isPrepared_addRow h
  | appendChange table old? new? => exact orUnchanged_of h fun _ => isPrepared_appendChange h
  | insert table row => exact orUnchanged_of h fun _ => isPrepared_insert h
  | upsert table row => exact orUnchanged_of h fun _ => isPrepared_upsert h

theorem isPrepared_executeAll (h : db.IsPrepared names) (statements : List Statement) :
    (db.executeAll statements).IsPrepared names := by
  induction statements generalizing db with
  | nil => exact h
  | cons statement statements ih => exact ih (isPrepared_execute h statement)

/-! ## Preparing once more -/

theorem createTables_of_held {held : List String}
    (hheld : ∀ name ∈ held, (db.table? name).isSome = true)
    (hnames : ∀ name ∈ held, isReserved name = false) : db.createTables held = (.ok (), db) := by
  induction held with
  | nil => rfl
  | cons name held ih =>
    obtain ⟨hname, hheld⟩ := List.forall_mem_cons.1 hheld
    obtain ⟨hfree, hnames⟩ := List.forall_mem_cons.1 hnames
    have hcreate : db.createTable name = .ok db := by
      unfold createTable
      rw [hfree, if_neg Bool.false_ne_true, if_pos hname]
    unfold createTables
    rw [hcreate]
    exact ih hheld hnames

/-- A preparation finds nothing to do where one has succeeded. -/
theorem ensure_of_isPrepared (h : db.IsPrepared names)
    (hnames : ∀ c, isReserved (names.get c) = false) : db.ensure names = (.ok (), db) := by
  have hmem : ∀ name ∈ names.toList, ∃ c, names.get c = name := by
    intro name hname
    rw [ByCollection.toList_eq_map_get] at hname
    obtain ⟨c, -, hc⟩ := List.mem_map.1 hname
    exact ⟨c, hc⟩
  have hcreate : db.createTables names.toList = (.ok (), db) := by
    refine createTables_of_held (fun name hname => ?_) fun name hname => ?_
    · obtain ⟨c, rfl⟩ := hmem name hname
      exact h.tables c
    · obtain ⟨c, rfl⟩ := hmem name hname
      exact hnames c
  unfold ensure
  rw [hcreate]
  exact createLog_of_isPrepared h

/-! ## The first preparation -/

theorem isReserved_of_createTable {name : String} (h : db.createTable name = .ok db') :
    isReserved name = false := by
  unfold createTable at h
  split at h
  · cases h
  · rename_i hname
    exact Bool.eq_false_iff.2 hname

theorem isReserved_of_createTables {created : List String}
    (h : db.createTables created = (.ok (), db')) : ∀ name ∈ created, isReserved name = false := by
  induction created generalizing db with
  | nil => exact nofun
  | cons name created ih =>
    unfold createTables at h
    split at h
    · rename_i hcreate
      exact List.forall_mem_cons.2 ⟨isReserved_of_createTable hcreate, ih h⟩
    · cases (Prod.mk.inj h).1

/-- A preparation that succeeds leaves everything in its place, and only names that are free let it
succeed. -/
theorem isPrepared_of_ensure (h : db.ensure names = (.ok (), db')) :
    db'.IsPrepared names ∧ ∀ c, TableStore.IsFreeName (names.get c) := by
  have hmem : ∀ c, names.get c ∈ names.toList := fun c => by
    rw [ByCollection.toList_eq_map_get]
    exact List.mem_map_of_mem (Collection.mem_all c)
  unfold ensure at h
  split at h
  · rename_i created hcreate
    have hreserved := isReserved_of_createTables hcreate
    have htables := (TableStore.createTables_isSome hcreate).1
    unfold createLog at h
    split at h
    · cases (Prod.mk.inj h).1
    · rename_i hindex
      obtain rfl := (Prod.mk.inj h).2
      have hnone : created.table? logIndexName = none := Option.not_isSome_iff_eq_none.1 hindex
      refine ⟨⟨fun c => htables _ (hmem c), hnone, _, rfl, rfl⟩,
        fun c => ⟨hreserved _ (hmem c), Bool.eq_false_iff.2 fun hsame => ?_⟩⟩
      have hheld := htables _ (hmem c)
      rw [← table?_of_sameName _ hsame, hnone] at hheld
      cases hheld
  · rename_i hfailed
    exact (hfailed _ h).elim

/-- A log with no changes under any name is empty. -/
theorem rows_eq_nil {log : ChangeLog} (hlog : db.log? = some log)
    (h : ∀ name, db.changesOf name = []) : log.rows = [] := by
  refine List.eq_nil_iff_forall_not_mem.2 fun row hrow => ?_
  have hmem : row ∈ db.changesOf row.table := by
    rw [changesOf_eq hlog]
    exact List.mem_filter.2 ⟨hrow, beq_self_eq_true _⟩
  rw [h] at hmem
  cases hmem

end Database

/-! ## Stores -/

/-- Names of tables that the settings accept. -/
def AcceptedNames : Type := { names : CollectionNames // names.fault? = none }

namespace TableStore

open Database (Statement)

/-- Whether a first preparation sets a store up for good. -/
structure SetsUp (s s' : TableStore) : Prop where
  prepared : DocumentStore.prepare s = (.ok (), s')
  /-- Every collection has an empty table, -/
  tables : ∀ c, ∃ t, s'.database.table? (s'.tableName c) = some t ∧ t.rows = []
  /-- and there is a log that is empty too. -/
  log : ∃ log, s'.database.log? = some log ∧ log.rows = []
  /-- After any calls to the store, one more preparation succeeds and changes nothing. -/
  again : ∀ commands, DocumentStore.prepare (s'.run commands) = (.ok (), s'.run commands)
  /-- The same holds after anything that all writers had the database do. -/
  again_after_others : ∀ statements : List Statement,
    DocumentStore.prepare { s' with database := s'.database.executeAll statements } =
      (.ok (), { s' with database := s'.database.executeAll statements })

/-- Whether no two collections have one table. -/
def HasOwnTables (s : TableStore) : Prop :=
  ∀ c d t, s.database.table? (s.tableName c) = some t → s.database.table? (s.tableName d) = some t →
    c = d

variable {s s' : TableStore}

/-- The statement that a call has the database run. -/
theorem exists_statement (s : TableStore) (command : Command) :
    ∃ statement, s.perform command = { s with database := s.database.execute statement } := by
  cases command with
  | ensure =>
    refine ⟨.ensure s.names, ?_⟩
    change (ensure s).2 = { s with database := (s.database.ensure s.names).2 }
    unfold ensure
    split <;> rename_i hensure <;> rw [hensure]
  | write w =>
    cases w with
    | insert c fresh doc =>
      refine ⟨.insert (s.tableName c) (rowOf (doc.identified fresh).1 (doc.identified fresh).2), ?_⟩
      simp only [perform, write, insert, Database.execute, bind, Except.bind]
      cases s.database.insert (s.tableName c)
        (rowOf (doc.identified fresh).1 (doc.identified fresh).2) <;> rfl
    | upsert c id doc =>
      refine ⟨.upsert (s.tableName c) (rowOf id (doc.withId id)), ?_⟩
      simp only [perform, write, upsert, Database.execute, bind, Except.bind]
      cases s.database.upsert (s.tableName c) (rowOf id (doc.withId id)) <;> rfl

theorem exists_statements (s : TableStore) (commands : List Command) : ∃ statements,
    s.run commands = { s with database := s.database.executeAll statements } := by
  induction commands generalizing s with
  | nil => exact ⟨[], rfl⟩
  | cons command commands ih =>
    obtain ⟨statement, hstatement⟩ := exists_statement s command
    obtain ⟨statements, hstatements⟩ := ih (s.perform command)
    refine ⟨statement :: statements, ?_⟩
    change (s.perform command).run commands = _
    rw [hstatements, hstatement]
    rfl

theorem prepare_of_isPrepared (hopen : s.blocked? = none) (h : s.database.IsPrepared s.names)
    (hnames : ∀ c, isReserved (s.names.get c) = false) :
    DocumentStore.prepare s = (.ok (), s) := by
  unfold DocumentStore.prepare
  rw [openSession_of_open hopen]
  change ((ensure s).1.mapError Failure.error, (ensure s).2) = _
  unfold ensure
  rw [Database.ensure_of_isPrepared h hnames]
  rfl

/-- A preparation of an empty database that succeeds once sets it up for good. -/
theorem setsUp_of_prepare (hempty : s.database = .empty)
    (h : DocumentStore.prepare s = (.ok (), s')) : s.SetsUp s' := by
  obtain ⟨hopen, database, hensure, rfl⟩ := prepare_eq_ok h
  obtain ⟨hprepared, hfree⟩ := Database.isPrepared_of_ensure hensure
  have hagain : ∀ statements : List Statement,
      DocumentStore.prepare { s with database := database.executeAll statements } =
        (.ok (), { s with database := database.executeAll statements }) := fun statements =>
    prepare_of_isPrepared hopen (Database.isPrepared_executeAll hprepared statements)
      fun c => (hfree c).1
  have hframe : ∀ name, database.rowsOf name = [] ∧ database.changesOf name = [] := fun name => by
    have hkept := s.database.ensure_frame s.names name
    rw [hensure, hempty] at hkept
    exact hkept
  refine ⟨h, fun c => ?_, ?_, fun commands => ?_, hagain⟩
  · obtain ⟨t, ht⟩ := Option.isSome_iff_exists.1 (hprepared.tables c)
    exact ⟨t, ht, (Database.rowsOf_eq ht).symm.trans (hframe _).1⟩
  · obtain ⟨log, hlog, -⟩ := hprepared.log
    exact ⟨log, hlog, Database.rows_eq_nil hlog fun name => (hframe name).2⟩
  · obtain ⟨statements, hstatements⟩ := exists_statements { s with database } commands
    rw [hstatements]
    exact hagain statements

theorem isFreeName_of_prepare (h : DocumentStore.prepare s = (.ok (), s')) (c : Collection) :
    IsFreeName (s.names.get c) := by
  obtain ⟨-, database, hensure, -⟩ := prepare_eq_ok h
  exact (Database.isPrepared_of_ensure hensure).2 c

theorem hasOwnTables_iff (h : DocumentStore.prepare s = (.ok (), s')) :
    s'.HasOwnTables ↔ HasDistinctTables s.names := by
  obtain ⟨hnames, htables, -⟩ := tables_of_prepare h
  rw [← hnames]
  constructor
  · intro hown c d hsame
    obtain ⟨t, ht⟩ := htables c
    refine hown c d t ht ?_
    rw [← ht]
    exact (Database.table?_of_sameName _ hsame).symm
  · intro hdistinct c d t hc hd
    refine hdistinct c d (Database.sameName_iff.2 ?_)
    have hlower := Database.sameName_iff.1 (Database.sameName_of_table? hc)
    exact hlower.trans (Database.sameName_iff.1 (Database.sameName_of_table? hd)).symm

/-- The accepted names with which a new database can be set up are those that it leaves free, and
each collection has a table of its own if no two names differ in case only. -/
theorem setsUp_iff_isFreeName (path : String) (names : AcceptedNames) :
    let s : TableStore := { path, names := names.1 }
    ((∃ s', s.SetsUp s') ↔ ∀ c, IsFreeName (names.1.get c)) ∧
      ((∃ s', s.SetsUp s' ∧ s'.HasOwnTables) ↔
        (∀ c, IsFreeName (names.1.get c)) ∧ HasDistinctTables names.1) := by
  intro s
  have hset : (∀ c, IsFreeName (names.1.get c)) → ∃ s', s.SetsUp s' := by
    intro hfree
    obtain ⟨s', hprepare⟩ := exists_prepare (s := s) hfree rfl rfl
    exact ⟨s', setsUp_of_prepare rfl hprepare⟩
  refine ⟨⟨?_, hset⟩, ?_, ?_⟩
  · rintro ⟨s', hs'⟩
    exact isFreeName_of_prepare hs'.prepared
  · rintro ⟨s', hs', hown⟩
    exact ⟨isFreeName_of_prepare hs'.prepared, (hasOwnTables_iff hs'.prepared).1 hown⟩
  · rintro ⟨hfree, hdistinct⟩
    obtain ⟨s', hs'⟩ := hset hfree
    exact ⟨s', hs', (hasOwnTables_iff hs'.prepared).2 hdistinct⟩

/-- Names that the settings accept and that are not free: one kept for the database, and that of the
index. -/
theorem accepted_names_not_set_up :
    let names : List CollectionNames :=
      [ ⟨"sqlite_rows", "transformations", "tests", "analytics"⟩,
        ⟨"idx_changes_collection", "transformations", "tests", "analytics"⟩ ]
    ∀ ns ∈ names, ns.fault? = none ∧
      ¬ ∃ s', ({ path := "lab.db", names := ns } : TableStore).SetsUp s' := by
  intro names
  have hlower : "sqlite_rows".toLower = "sqlite_rows" := by decide +kernel
  have hreserved : isReserved "sqlite_rows" = true := by
    rw [isReserved, hlower]
    decide
  have hindex : sameName logIndexName "idx_changes_collection" = true := beq_self_eq_true _
  have hfault : ∀ ns ∈ names, ns.fault? = none := by decide
  have htaken : ∀ ns ∈ names, ¬ IsFreeName (ns.get .experiments) := by
    refine List.forall_mem_cons.2 ⟨fun h => ?_, List.forall_mem_singleton.2 fun h => ?_⟩
    · exact Bool.false_ne_true (h.1.symm.trans hreserved)
    · exact Bool.false_ne_true (h.2.symm.trans hindex)
  intro ns hns
  refine ⟨hfault ns hns, ?_⟩
  rintro ⟨s', hs'⟩
  exact htaken ns hns (isFreeName_of_prepare hs'.prepared .experiments)

end TableStore

end TrialBoard
