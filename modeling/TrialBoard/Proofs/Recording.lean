import TrialBoard.Cli.Run
import TrialBoard.Proofs.Extraction
import TrialBoard.Proofs.Isolation
import TrialBoard.Proofs.ReadingBack
import TrialBoard.Query
import TrialBoard.Recorder

/-!
# What was recorded is read back

A recorded row is what the caller gave, the time of its creation and an id. Its text reads back if
what was given is nested no deeper than readers allow of a row. The members of an experiment's row
are the metadata's own, so the metadata may be as deep as any text the command line accepts; in a
row of another collection the payload lies one level further in.

As long as no accepted payload uses up that level, every recorded row is found by its id, and the
two questions list just what was recorded, in order. One that does is accepted all the same, and no
read of its collection succeeds again.
-/

namespace TrialBoard

theorem Document.identified_of_no_id {doc : Document} (h : doc.id? = none) (fresh : String) :
    doc.identified fresh = (fresh, doc.withId fresh) := by
  unfold identified
  rw [h]

namespace TableStore

theorem mapM_eq_error {bodies : List String} {body reason : String} (hbody : body ∈ bodies)
    (h : readBody body = .error reason) :
    ∃ reason, bodies.mapM readBody = .error reason := by
  induction bodies with
  | nil => cases hbody
  | cons b bodies ih =>
    rw [List.mapM_cons]
    cases hb : readBody b with
    | error reason => exact ⟨reason, rfl⟩
    | ok row =>
      have hne : body ≠ b := by
        rintro rfl
        rw [hb] at h
        cases h
      obtain ⟨reason, hreason⟩ := ih ((List.mem_cons.1 hbody).resolve_left hne)
      rw [hreason]
      exact ⟨reason, rfl⟩

/-- A row that cannot be read fails the reads that meet it. -/
theorem unreadable_of_row {s : TableStore} {c : Collection} {id reason : String} {t : Table}
    {row : Row} (ht : s.database.table? (s.tableName c) = some t) (hrow : t.row? id = some row)
    (hbody : readBody row.body = .error reason) :
    (∃ e, s.get c id = .error e) ∧ ∃ e, s.scan c = .error e := by
  have hmem : row.body ∈ t.rows.map (·.body) :=
    List.mem_map_of_mem (List.mem_of_find?_eq_some hrow)
  obtain ⟨reason', hbodies⟩ := mapM_eq_error hmem hbody
  constructor
  · simp [get, Database.body?, Database.table, ht, hrow, answer, hbody, bind,
      Except.bind, pure, Except.pure, throw, throwThe, MonadExceptOf.throw]
  · simp [scan, Database.bodies, Database.table, ht, answer,
      readBodies, hbodies, bind, Except.bind, pure, Except.pure]

end TableStore

end TrialBoard

namespace TrialBoard.Recorder

open Document (idKey createdAtKey experimentKey hasId)
open Json (Members maxDepth)

namespace Entry

/-- The value that a caller gives. -/
def payload : Entry → Json
  | experiment metadata => metadata
  | transformation _ _ payload => payload
  | test _ _ payload => payload
  | analytics _ payload => payload

/-- The fields that a caller gives. -/
def fields : Entry → List (String × Json)
  | experiment metadata => metadata.membersOf
  | transformation id version payload =>
    [(experimentKey, .string id), ("version_name", .string version), ("transformation", payload)]
  | test id version payload =>
    [(experimentKey, .string id), ("version", .string version), ("test_data", payload)]
  | analytics id payload => [(experimentKey, .string id), ("analytics", payload)]

/-- The write of an entry, unless it is an experiment without an object. -/
def write? (stamp : Stamp) (entry : Entry) : Option Write :=
  entry.row.toOption.map fun row =>
    .insert entry.collection stamp.fresh (row.insert createdAtKey (.string stamp.now))

variable {entry : Entry} {stamp : Stamp} {row : Document} {w : Write}

theorem get?_row (h : entry.row = .ok row) (key : String) :
    row.get? key = List.lookup key entry.fields := by
  have hbelongs : ∀ id, Members.get? (belongingTo id) key =
      if key = experimentKey then some (.string id) else none := fun id =>
    Members.get?_insert [] experimentKey (.string id) key
  cases entry with
  | experiment metadata =>
    cases metadata with
    | object members => exact congrArg _ (Except.ok.inj h).symm
    | null =>
      rw [← Except.ok.inj h]
      rfl
    | bool | number | string | array => cases h
  | transformation id version payload =>
    rw [← Except.ok.inj h, Members.get?_insert, Members.get?_insert, hbelongs]
    simp only [fields, Members.lookup_cons, List.lookup_nil, experimentKey]
    split_ifs <;> simp_all
  | test id version payload =>
    rw [← Except.ok.inj h, Members.get?_insert, Members.get?_insert, hbelongs]
    simp only [fields, Members.lookup_cons, List.lookup_nil, experimentKey]
    split_ifs <;> simp_all
  | analytics id payload =>
    rw [← Except.ok.inj h, Members.get?_insert, hbelongs]
    simp only [fields, Members.lookup_cons, List.lookup_nil, experimentKey]
    split_ifs <;> simp_all

/-- Whether a row is what a caller gave, with the time of its creation and an id. An id among what
was given is kept if it is a text. -/
structure IsRecordedAs (stamp : Stamp) (entry : Entry) (id : String) (row : Document) : Prop where
  id_eq : id = (((List.lookup idKey entry.fields).bind Json.asString?).getD stamp.fresh)
  atId : row.get? idKey = some (.string id)
  atCreatedAt : row.get? createdAtKey = some (.string stamp.now)
  atOther : ∀ key, key ≠ idKey → key ≠ createdAtKey → row.get? key = List.lookup key entry.fields

theorem write?_eq_some (h : entry.write? stamp = some w) : ∃ row, entry.row = .ok row ∧
    w = .insert entry.collection stamp.fresh (row.insert createdAtKey (.string stamp.now)) := by
  obtain ⟨row, hrow, rfl⟩ := Option.map_eq_some_iff.1 h
  cases hrow' : entry.row with
  | error e =>
    rw [hrow'] at hrow
    cases hrow
  | ok fields =>
    rw [hrow'] at hrow
    obtain rfl : fields = row := Option.some.inj hrow
    exact ⟨fields, rfl, rfl⟩

theorem collection_of_write? (h : entry.write? stamp = some w) :
    w.collection = entry.collection := by
  obtain ⟨row, -, rfl⟩ := write?_eq_some h
  rfl

theorem isRecordedAs_of_write? (h : entry.write? stamp = some w) :
    entry.IsRecordedAs stamp w.id w.row := by
  obtain ⟨fields, hfields, rfl⟩ := write?_eq_some h
  have hget := get?_row hfields
  have hne : idKey ≠ createdAtKey := by decide
  have hown : Document.id? (fields.insert createdAtKey (.string stamp.now)) =
      (List.lookup idKey entry.fields).bind Json.asString? := by
    rw [Document.id?, Document.text?, Members.get?_insert_of_ne hne, hget]
  change IsRecordedAs stamp entry (Document.identified stamp.fresh _).1
    (Document.identified stamp.fresh _).2
  cases hid : (List.lookup idKey entry.fields).bind Json.asString? with
  | some id =>
    obtain ⟨value, hvalue, htext⟩ := Option.bind_eq_some_iff.1 hid
    obtain rfl : value = .string id := by cases value <;> simp_all [Json.asString?]
    rw [Document.identified_of_id? (hown.trans hid)]
    refine ⟨by rw [hid]; rfl, ?_, Members.get?_insert_self _ _ _, fun key hid hcreated => ?_⟩
    · rw [Members.get?_insert_of_ne hne, hget, hvalue]
    · rw [Members.get?_insert_of_ne hcreated, hget]
  | none =>
    rw [Document.identified_of_no_id (hown.trans hid)]
    refine ⟨by rw [hid]; rfl, Members.get?_insert_self _ _ _, ?_, fun key hid hcreated => ?_⟩
    · rw [Document.withId, Members.get?_insert_of_ne hne.symm, Members.get?_insert_self]
    · rw [Document.withId, Members.get?_insert_of_ne hid, Members.get?_insert_of_ne hcreated, hget]

/-! ## Rows that read back -/

/-- How deep what a caller gives may be nested, so that readers have room for the row. -/
def room (entry : Entry) : Nat :=
  if entry.collection = .experiments then maxDepth else maxDepth - 1

/-- Whether what a caller gives is canonical, leaves room for the row around it, and has real
numbers that are read as themselves. -/
structure IsReadable (entry : Entry) : Prop where
  isCanonical : entry.payload.canonical = entry.payload
  leavesRoom : entry.payload.FitsIn entry.room
  realsReadBack : entry.payload.RealsReadBack

theorem fitsIn_of_payload {option : String} {text? : Option String} {value : Json}
    (h : Cli.payload option text? = .ok value) :
    value.FitsIn maxDepth ∧ value.canonical = value := by
  unfold Cli.payload at h
  split at h
  · obtain rfl : Json.object [] = value := Except.ok.inj h
    exact ⟨fun m hm => absurd hm List.not_mem_nil, rfl⟩
  · split at h
    · rename_i hparse
      obtain rfl := Except.ok.inj h
      exact Json.fitsIn_of_parse hparse
    · cases h

/-- What a command line gives is canonical, and readers have room for it outside of a row. -/
theorem fitsIn_of_request {request : Cli.RecordRequest} (h : request.entry = .ok entry) :
    entry.payload.FitsIn maxDepth ∧ entry.payload.canonical = entry.payload := by
  have hmap : ∀ {option : String} {text? : Option String} {make : Json → Entry},
      (Cli.payload option text?).map make = .ok entry →
        ∃ value, Cli.payload option text? = .ok value ∧ make value = entry := by
    intro option text? make h
    cases hvalue : Cli.payload option text? with
    | ok value => exact ⟨value, rfl, by rw [hvalue] at h; exact Except.ok.inj h⟩
    | error e =>
      rw [hvalue] at h
      cases h
  cases request <;>
  · obtain ⟨value, hvalue, rfl⟩ := hmap h
    exact fitsIn_of_payload hvalue

/-- So only a payload in a row of another collection can be too deep. -/
theorem isReadable_of_request {request : Cli.RecordRequest} (h : request.entry = .ok entry)
    (hroom : entry.collection ≠ .experiments → entry.payload.FitsIn (maxDepth - 1))
    (hreals : entry.payload.RealsReadBack) : entry.IsReadable := by
  obtain ⟨hfits, hcanonical⟩ := fitsIn_of_request h
  refine ⟨hcanonical, ?_, hreals⟩
  unfold room
  split
  · exact hfits
  · exact hroom ‹_›

theorem readsBack_belongingTo (id : String) : Document.ReadsBack (belongingTo id) :=
  Document.readsBack_nil.insert experimentKey (Json.rereads_string _ id)

theorem readsBack_row (h : entry.IsReadable) (hrow : entry.row = .ok row) : row.ReadsBack := by
  have hpayload := Json.rereads_of_fitsIn h.leavesRoom h.isCanonical h.realsReadBack
  cases entry with
  | experiment metadata =>
    cases metadata with
    | object members =>
      obtain rfl : members = row := Except.ok.inj hrow
      exact Json.parse_render_iff.2 hpayload
    | null =>
      obtain rfl : [] = row := Except.ok.inj hrow
      exact Document.readsBack_nil
    | bool | number | string | array => cases hrow
  | transformation id version payload =>
    rw [← Except.ok.inj hrow]
    exact ((readsBack_belongingTo id).insert _ (Json.rereads_string _ version)).insert _
      hpayload
  | test id version payload =>
    rw [← Except.ok.inj hrow]
    exact ((readsBack_belongingTo id).insert _ (Json.rereads_string _ version)).insert _
      hpayload
  | analytics id payload =>
    rw [← Except.ok.inj hrow]
    exact (readsBack_belongingTo id).insert _ hpayload

theorem readsBack_write (h : entry.IsReadable) (hw : entry.write? stamp = some w) :
    w.row.ReadsBack := by
  obtain ⟨row, hrow, rfl⟩ := write?_eq_some hw
  exact ((readsBack_row h hrow).insert createdAtKey (Json.rereads_string _ stamp.now)).identified
    stamp.fresh

end Entry

/-! ## Recording one entry after the other -/

section

variable {σ τ : Type} [DocumentStore σ τ]

/-- Records entries one after the other, and answers for each of them. -/
def recordAll (s : σ) : List (Stamp × Entry) → List (Except Failure String) × σ
  | [] => ([], s)
  | (stamp, entry) :: calls =>
    let (answer, s) := record s stamp entry
    let (answers, s) := recordAll s calls
    (answer :: answers, s)

end

/-- The row that a call recorded in a collection, if it did. -/
def recordedRow? (c : Collection) (call : Stamp × Entry) (answer : Except Failure String) :
    Option Document :=
  if answer.isOk ∧ call.2.collection = c then (call.2.write? call.1).map Write.row else none

/-- The rows that calls recorded in a collection, in the order of the calls. -/
def recordedRows (c : Collection) (calls : List (Stamp × Entry))
    (answers : List (Except Failure String)) : List Document :=
  (calls.zip answers).filterMap fun p => recordedRow? c p.1 p.2

variable {s : TableStore} {rows : ByCollection (List Document)} {stamp : Stamp} {entry : Entry}
  {calls : List (Stamp × Entry)} {c : Collection} {id : String}

open TableStore (IsReady)

theorem record_of_no_write (s : TableStore) (h : entry.write? stamp = none) :
    ∃ failure, record s stamp entry = (.error failure, s) := by
  unfold record
  cases hrow : entry.row with
  | error e => exact ⟨_, rfl⟩
  | ok row =>
    rw [Entry.write?, hrow] at h
    cases h

/-- To record an entry is to make its write. -/
theorem record_of_write (hopen : s.blocked? = none) {w : Write}
    (h : entry.write? stamp = some w) :
    record s stamp entry =
      match s.write w with
      | .ok s' => (.ok w.id, s')
      | .error e => (.error (.error e), s) := by
  obtain ⟨row, hrow, rfl⟩ := Entry.write?_eq_some h
  have hinsert : DocumentStore.insert s entry.collection stamp.fresh
      (row.insert createdAtKey (.string stamp.now)) = _ := TableStore.insert_eq_write s _ _ _
  unfold record
  simp only [hrow, TableStore.changeInSession_of_open hopen, hinsert]
  cases s.write _ <;> rfl

theorem isFree_of_write? {w : Write} (hw : entry.write? stamp = some w)
    (hfree : (rows.get entry.collection).find? (hasId w.id) = none) : w.IsFree rows := by
  obtain ⟨row, -, rfl⟩ := Entry.write?_eq_some hw
  exact hfree

/-- An entry is recorded unless it has no row or its id is taken, and then nothing changes. -/
theorem record_of_ready (h : s.IsReady rows) (stamp : Stamp) (hentry : entry.IsReadable) :
    (∃ w s', entry.write? stamp = some w ∧ record s stamp entry = (.ok w.id, s') ∧
      s'.IsReady (rows.set entry.collection (rows.get entry.collection ++ [w.row]))) ∨
    ((∀ w, entry.write? stamp = some w →
        (rows.get entry.collection).find? (hasId w.id) ≠ none) ∧
      ∃ failure, record s stamp entry = (.error failure, s)) := by
  cases hw : entry.write? stamp with
  | none => exact .inr ⟨nofun, record_of_no_write s hw⟩
  | some w =>
    rw [record_of_write h.isOpen hw]
    cases hwrite : s.write w with
    | error e =>
      refine .inr ⟨fun w' hw' hfree => ?_, _, rfl⟩
      obtain rfl := Option.some.inj hw'
      obtain ⟨s', hs'⟩ := h.exists_write (isFree_of_write? hw hfree)
      rw [hwrite] at hs'
      cases hs'
    | ok s' =>
      obtain ⟨hready, -⟩ := h.write (Entry.readsBack_write hentry hw) hwrite
      obtain ⟨row, -, hinsert⟩ := Entry.write?_eq_some hw
      have hcollection := Entry.collection_of_write? hw
      have hfree : (rows.get w.collection).find? (hasId w.id) = none := by
        rw [hinsert] at hwrite ⊢
        exact TableStore.find?_eq_none_of_insert h.holds hwrite
      rw [TableStore.rowsAfter_of_free hfree, upsertRow_of_id w.id?_row,
        replaceOrAppend_of_find?_eq_none hfree, hcollection] at hready
      exact .inl ⟨w, s', rfl, rfl, hready⟩

theorem recordAll_cons (s : TableStore) (stamp : Stamp) (entry : Entry)
    (calls : List (Stamp × Entry)) :
    recordAll s ((stamp, entry) :: calls) =
      ((record s stamp entry).1 :: (recordAll (record s stamp entry).2 calls).1,
        (recordAll (record s stamp entry).2 calls).2) := rfl

theorem recordedRows_cons (c : Collection) (call : Stamp × Entry) (answer : Except Failure String)
    (calls : List (Stamp × Entry)) (answers : List (Except Failure String)) :
    recordedRows c (call :: calls) (answer :: answers) =
      (recordedRow? c call answer).toList ++ recordedRows c calls answers := by
  rw [recordedRows, List.zip_cons_cons, List.filterMap_cons]
  simp only
  cases recordedRow? c call answer <;> rfl

/-- What the collections hold after calls. -/
def heldAfter (rows : ByCollection (List Document)) (calls : List (Stamp × Entry))
    (answers : List (Except Failure String)) : ByCollection (List Document) :=
  .ofFn fun c => rows.get c ++ recordedRows c calls answers

theorem heldAfter_nil (rows : ByCollection (List Document)) : heldAfter rows [] [] = rows := by
  refine ByCollection.ext_get fun c => ?_
  rw [heldAfter, ByCollection.get_ofFn]
  exact List.append_nil _

theorem heldAfter_ok {w : Write} (hw : entry.write? stamp = some w) (id : String)
    (calls : List (Stamp × Entry)) (answers : List (Except Failure String)) :
    heldAfter rows ((stamp, entry) :: calls) (.ok id :: answers) =
      heldAfter (rows.set entry.collection (rows.get entry.collection ++ [w.row])) calls
        answers := by
  refine ByCollection.ext_get fun c => ?_
  rw [heldAfter, heldAfter, ByCollection.get_ofFn, ByCollection.get_ofFn, recordedRows_cons]
  by_cases hc : entry.collection = c
  · have hrow : recordedRow? c (stamp, entry) (.ok id) = some w.row := by
      rw [recordedRow?, if_pos ⟨rfl, hc⟩, hw]
      rfl
    rw [hrow, ← hc, ByCollection.get_set_self, List.append_assoc]
    rfl
  · have hrow : recordedRow? c (stamp, entry) (.ok id) = none := if_neg fun h => hc h.2
    rw [hrow, ByCollection.get_set_of_ne _ (Ne.symm hc)]
    rfl

theorem heldAfter_error (call : Stamp × Entry) (failure : Failure) (calls : List (Stamp × Entry))
    (answers : List (Except Failure String)) :
    heldAfter rows (call :: calls) (.error failure :: answers) = heldAfter rows calls answers := by
  refine ByCollection.ext_get fun c => ?_
  rw [heldAfter, heldAfter, ByCollection.get_ofFn, ByCollection.get_ofFn, recordedRows_cons]
  have hrow : recordedRow? c call (.error failure) = none := if_neg fun h => nomatch h.1
  rw [hrow]
  rfl

/-- After the calls each collection holds what it held and the rows that were recorded in it. -/
theorem recordAll_of_ready (h : s.IsReady rows) (hcalls : ∀ call ∈ calls, call.2.IsReadable) :
    (recordAll s calls).2.IsReady (heldAfter rows calls (recordAll s calls).1) ∧
    List.Forall₂ (fun call answer => ∀ id, answer = .ok id →
      ∃ w, call.2.write? call.1 = some w ∧ w.id = id) calls (recordAll s calls).1 := by
  induction calls generalizing s rows with
  | nil => exact ⟨(heldAfter_nil rows).symm ▸ h, .nil⟩
  | cons call calls ih =>
    obtain ⟨stamp, entry⟩ := call
    obtain ⟨hentry, hcalls⟩ := List.forall_mem_cons.1 hcalls
    rw [recordAll_cons]
    rcases record_of_ready h stamp hentry with
      ⟨w, s', hw, hrecord, hready⟩ | ⟨-, failure, hrecord⟩
    · obtain ⟨hlast, hanswers⟩ := ih hready hcalls
      rw [hrecord]
      refine ⟨?_, .cons (fun id hid => ⟨w, hw, Except.ok.inj hid⟩) hanswers⟩
      rw [heldAfter_ok hw]
      exact hlast
    · obtain ⟨hlast, hanswers⟩ := ih h hcalls
      rw [hrecord]
      refine ⟨?_, .cons nofun hanswers⟩
      rw [heldAfter_error]
      exact hlast

/-! ## Reading it back -/

/-- The rows of a collection that belong to an experiment. -/
def belonging (rows : ByCollection (List Document)) (c : Collection) (id : String) :
    List Document :=
  (rows.get c).filter (·.experiment? == some id)

theorem list_of_ready (h : s.IsReady rows) :
    (Query.list s).1 = .ok (rows.get .experiments) := by
  have hscan : DocumentStore.scan s .experiments = .ok (rows.get .experiments) :=
    TableStore.scan_of_holds h.holds .experiments
  rw [Query.list, TableStore.inSession_of_open h.isOpen, hscan]
  rfl

theorem detail_of_ready (h : s.IsReady rows) (id : String) :
    (Query.detail s id).1 = .ok (((rows.get .experiments).find? (hasId id)).map fun experiment =>
      { experiment
        transformations := belonging rows .transformations id
        tests := belonging rows .tests id
        analytics := belonging rows .analytics id }) := by
  have hget : DocumentStore.get s .experiments id =
      .ok ((rows.get .experiments).find? (hasId id)) :=
    TableStore.get_of_holds h.holds .experiments id
  have hfilter : ∀ c, DocumentStore.filterEq s c experimentKey (.string id) =
      .ok (belonging rows c id) := fun c =>
    TableStore.filterEq_of_holds h.holds Extract.isPlain_experimentKey c id
  rw [Query.detail, TableStore.inSession_of_open h.isOpen, hget]
  simp only [hfilter]
  cases (rows.get .experiments).find? (hasId id) <;> rfl

/-- What is recorded is read back: every row whose call answered an id is found by that id, with
what was given in it, and the two questions list just what was held before and what was recorded, in
the order of the calls. -/
theorem recorded_rows_read_back (h : s.IsReady rows) (hcalls : ∀ call ∈ calls, call.2.IsReadable) :
    let answers := (recordAll s calls).1
    let last := (recordAll s calls).2
    let held := heldAfter rows calls answers
    List.Forall₂ (fun call answer => ∀ id, answer = .ok id →
      ∃ row, last.get call.2.collection id = .ok (some row) ∧
        call.2.IsRecordedAs call.1 id row) calls answers ∧
    (Query.list last).1 = .ok (held.get .experiments) ∧
    ∀ id, (Query.detail last id).1 =
      .ok (((held.get .experiments).find? (hasId id)).map fun experiment =>
        { experiment
          transformations := belonging held .transformations id
          tests := belonging held .tests id
          analytics := belonging held .analytics id }) := by
  intro answers last held
  obtain ⟨hready, hanswers⟩ := recordAll_of_ready h hcalls
  refine ⟨?_, list_of_ready hready, detail_of_ready hready⟩
  obtain ⟨hlength, hids⟩ := List.forall₂_iff_zip.1 hanswers
  refine List.forall₂_iff_zip.2 ⟨hlength, fun {call answer} hmem id hid => ?_⟩
  obtain ⟨w, hw, rfl⟩ := hids hmem id hid
  refine ⟨w.row, ?_, Entry.isRecordedAs_of_write? hw⟩
  have hrow : recordedRow? call.2.collection call answer = some w.row := by
    rw [recordedRow?, hid, if_pos ⟨rfl, rfl⟩, hw]
    rfl
  have hheld : w.row ∈ held.get call.2.collection := by
    change w.row ∈ (heldAfter rows calls answers).get call.2.collection
    rw [heldAfter, ByCollection.get_ofFn]
    exact List.mem_append_right _ (List.mem_filterMap.2 ⟨_, hmem, hrow⟩)
  rw [TableStore.get_of_holds hready.holds]
  exact congrArg _ (find?_of_keyed (hready.holds.keyed _) hheld w.id?_row)

/-- An experiment and a test of it, recorded in a store that was just prepared. -/
theorem recorded_rows_read_back_after_prepare :
    let calls : List (Stamp × Entry) :=
      [(⟨"2024-01-01T00:00:00.000000Z", "g"⟩, .experiment (.object [("id", .string "e")])),
        (⟨"2024-01-01T00:00:01.000000Z", "h"⟩, .test "e" "1" (.array [.string "passed"]))]
    ∃ s', DocumentStore.prepare ({ path := "lab.db", names := .ofFn Collection.name } : TableStore) =
      (.ok (), s') ∧ s'.IsReady (.ofFn fun _ => []) ∧ (∀ call ∈ calls, call.2.IsReadable) ∧
      (recordAll s' calls).1 = [.ok "e", .ok "h"] ∧
      ∃ row, (recordAll s' calls).2.get .tests "h" = .ok (some row) ∧
        row.get? "test_data" = some (.array [.string "passed"]) := by
  intro calls
  obtain ⟨s', hprepare, hready⟩ := TableStore.exists_ready_usual "lab.db"
  have hexperiment : (Entry.experiment (.object [("id", .string "e")])).IsReadable := by
    refine ⟨rfl, fun m hm => ?_, fun x hx => ?_⟩
    · rw [List.mem_singleton.1 hm]
      trivial
    · cases hx with
      | member hm h =>
        rw [List.mem_singleton.1 hm] at h
        cases h
  have htest : (Entry.test "e" "1" (.array [.string "passed"])).IsReadable := by
    refine ⟨rfl, fun m hm => ?_, fun x hx => ?_⟩
    · rw [List.mem_singleton.1 hm]
      trivial
    · cases hx with
      | item hm h =>
        rw [List.mem_singleton.1 hm] at h
        cases h
  have hcalls : ∀ call ∈ calls, call.2.IsReadable :=
    List.forall_mem_cons.2 ⟨hexperiment, List.forall_mem_singleton.2 htest⟩
  have hread := recorded_rows_read_back hready hcalls
  have hanswers : (recordAll s' calls).1 = [.ok "e", .ok "h"] := by
    rcases record_of_ready hready ⟨"2024-01-01T00:00:00.000000Z", "g"⟩ hexperiment with
      ⟨w, s₁, hw, hfirst, hready₁⟩ | ⟨htaken, -⟩
    · have hid : w.id = "e" := (Entry.isRecordedAs_of_write? hw).id_eq
      rcases record_of_ready hready₁ ⟨"2024-01-01T00:00:01.000000Z", "h"⟩ htest with
        ⟨w', s₂, hw', hsecond, -⟩ | ⟨htaken, -⟩
      · have hid' : w'.id = "h" := (Entry.isRecordedAs_of_write? hw').id_eq
        rw [recordAll_cons, recordAll_cons, hfirst, hsecond, hid, hid']
        rfl
      · exact absurd rfl (htaken _ rfl)
    · exact absurd rfl (htaken _ rfl)
  refine ⟨s', hprepare, hready, hcalls, hanswers, ?_⟩
  obtain ⟨hrows, -, -⟩ := hread
  rw [hanswers] at hrows
  obtain ⟨-, hrows⟩ := List.forall₂_cons.1 hrows
  obtain ⟨htestRow, -⟩ := List.forall₂_cons.1 hrows
  obtain ⟨row, hget, hrow⟩ := htestRow "h" rfl
  exact ⟨row, hget, hrow.atOther "test_data" (by decide) (by decide)⟩

/-! ## Payloads that are too deep -/

theorem readBody_of_deep {row : Document} (h : ¬ (Json.object row).FitsIn maxDepth) :
    ∃ reason, TableStore.readBody (Json.object row).render = .error reason := by
  unfold TableStore.readBody
  cases hparse : Json.parse (Json.object row).render with
  | error e => exact ⟨_, rfl⟩
  | ok value =>
    obtain ⟨w, hw, -⟩ := Option.map_eq_some_iff.1 ((Json.parse_render _).1 hparse)
    exact absurd (Json.fitsIn_of_reread hw) h

/-- The payload of a row that belongs to an experiment is one of its members. -/
theorem Entry.exists_key_payload (h : entry.collection ≠ .experiments) : ∃ key, key ≠ idKey ∧
    key ≠ createdAtKey ∧ List.lookup key entry.fields = some entry.payload := by
  cases entry with
  | experiment metadata => exact absurd rfl h
  | transformation => exact ⟨"transformation", by decide, by decide, rfl⟩
  | test => exact ⟨"test_data", by decide, by decide, rfl⟩
  | analytics => exact ⟨"analytics", by decide, by decide, rfl⟩

/-- A payload that leaves no room for its row is recorded all the same, and then neither the row nor
its collection can be read. -/
theorem unreadable_of_deep (h : s.IsReady rows) (hchild : entry.collection ≠ .experiments)
    (hdeep : ¬ entry.payload.FitsIn (maxDepth - 1)) {s' : TableStore}
    (hrecord : record s stamp entry = (.ok id, s')) :
    (∃ e, s'.get entry.collection id = .error e) ∧ ∃ e, s'.scan entry.collection = .error e := by
  obtain ⟨w, hw⟩ : ∃ w, entry.write? stamp = some w := by
    cases hw : entry.write? stamp with
    | some w => exact ⟨w, rfl⟩
    | none =>
      obtain ⟨failure, hfailure⟩ := record_of_no_write s hw
      rw [hfailure] at hrecord
      cases hrecord
  have hcollection := Entry.collection_of_write? hw
  have hrow : ¬ (Json.object w.row).FitsIn maxDepth := by
    obtain ⟨key, hid, hcreated, hpayload⟩ := Entry.exists_key_payload hchild
    rw [← (Entry.isRecordedAs_of_write? hw).atOther key hid hcreated] at hpayload
    exact fun hfits => hdeep (hfits _ (Extract.mem_of_get? hpayload))
  obtain ⟨t, ht, -⟩ := h.holds.tables entry.collection
  obtain ⟨log, hlog⟩ := h.isLogged
  rw [record_of_write h.isOpen hw] at hrecord
  cases hwrite : s.write w with
  | error e =>
    rw [hwrite] at hrecord
    cases hrecord
  | ok last =>
    rw [hwrite] at hrecord
    obtain ⟨hid, rfl⟩ := Prod.mk.inj hrecord
    obtain rfl : w.id = id := Except.ok.inj hid
    rw [← hcollection] at ht ⊢
    have hfree : t.row? w.id = none := by
      obtain ⟨row, -, rfl⟩ := Entry.write?_eq_some hw
      exact TableStore.row?_eq_none_of_insert ht hwrite
    obtain rfl := TableStore.write_eq_ok hwrite ht hlog
    obtain ⟨reason, hreason⟩ := readBody_of_deep hrow
    exact TableStore.unreadable_of_row (TableStore.table?_written_self ht log _)
      (Table.row?_put_of_free hfree) hreason

/-- Arrays in one another, `n` around the innermost, which is empty. -/
def arrays : Nat → Json
  | 0 => .array []
  | n + 1 => .array [arrays n]

theorem rereads_arrays (n : Nat) : (arrays n).Rereads (n + 1) := by
  induction n with
  | zero => exact Json.rereads_array_iff.2 fun _ h => absurd h List.not_mem_nil
  | succ n ih =>
    refine Json.rereads_array_iff.2 fun item hitem => ?_
    rw [List.mem_singleton.1 hitem]
    exact ih

theorem not_fitsIn_arrays (n : Nat) : ¬ (arrays n).FitsIn n := by
  induction n with
  | zero => exact id
  | succ n ih => exact fun h => ih (h _ List.mem_cons_self)

theorem entry_of_parse {text : String} {value : Json} (h : Json.parse text = .ok value)
    (id version : String) :
    (Cli.RecordRequest.test id version (some text)).entry = .ok (.test id version value) := by
  have hpayload : Cli.payload "data" (some text) = .ok value := by
    simp only [Cli.payload, h]
  change (Cli.payload "data" (some text)).map (Entry.test id version) = _
  rw [hpayload]
  rfl

/-- A command line with arrays nested as deep as it accepts records a row that is never read. -/
theorem deepest_payload_unreadable :
    let entry := Entry.test "e" "1" (arrays 126)
    (∃ request : Cli.RecordRequest, request.entry = .ok entry) ∧
    ∃ s', DocumentStore.prepare ({ path := "lab.db", names := .ofFn Collection.name } : TableStore) =
      (.ok (), s') ∧ ∃ last, record s' ⟨"2024-01-01T00:00:00.000000Z", "t"⟩ entry = (.ok "t", last) ∧
        (∃ e, last.get .tests "t" = .error e) ∧ ∃ e, last.scan .tests = .error e := by
  intro entry
  have hparse : Json.parse (arrays 126).render = .ok (arrays 126) :=
    Json.parse_render_iff.2 (rereads_arrays 126)
  obtain ⟨s', hprepare, hready⟩ := TableStore.exists_ready_usual "lab.db"
  obtain ⟨w, hw⟩ : ∃ w, entry.write? ⟨"2024-01-01T00:00:00.000000Z", "t"⟩ = some w := ⟨_, rfl⟩
  have hid : w.id = "t" := (Entry.isRecordedAs_of_write? hw).id_eq
  obtain ⟨last, hwrite⟩ := hready.exists_write (isFree_of_write? hw rfl)
  have hrecord := record_of_write hready.isOpen hw
  rw [hwrite, hid] at hrecord
  refine ⟨⟨.test "e" "1" (some (arrays 126).render), ?_⟩, s', hprepare, last, hrecord, ?_⟩
  · exact entry_of_parse hparse "e" "1"
  · have hchild : entry.collection ≠ .experiments := nofun
    have hdeep : ¬ entry.payload.FitsIn (maxDepth - 1) := not_fitsIn_arrays 126
    exact unreadable_of_deep hready hchild hdeep hrecord

end TrialBoard.Recorder
