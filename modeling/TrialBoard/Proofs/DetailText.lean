import TrialBoard.Proofs.DecodedText
import TrialBoard.Proofs.Recording
import TrialBoard.Proofs.RelayRun

/-!
# The text of a detail

A detail is written as one object: the members of the experiment, then the three lists of rows. Its
text is read as the detail itself if the experiment has no member with the name of a list, if
readers have room for the experiment and the rows inside the lists, and if the real numbers in them
are read as themselves. Nothing keeps the metadata of an experiment from having a member with the
name of a list, and then the text has that key twice and is refused.
-/

namespace TrialBoard

open Json (Members maxDepth)

namespace Detail

/-- The names of the three lists. -/
def listNames : List String := shape.fields.map (·.name)

/-- Where the members go that are not one of the lists. -/
def keep (key : String) (value : Json) (e : Collected) : Collected :=
  { e with experiment := e.experiment.insert key value.canonical }

/-- The rows of the three lists. -/
def children (d : Detail) : List Document := d.transformations ++ d.tests ++ d.analytics

/-- Whether the text of a detail is an object without repeated keys that is read as the detail. -/
structure IsFaithful (d : Detail) : Prop where
  once : (d.toJson.membersOf.map Prod.fst).Nodup
  reads : decoder.parse d.toJson.render = .ok d

variable {d : Detail} {room : Nat}

/-! ## Taking the members -/

theorem isSettled_rows : rows.IsSettled := Json.Decoder.isSettled_list Json.Decoder.isSettled_object

theorem isSettled_fields : ∀ field ∈ shape.fields, field.decoder.IsSettled := by
  intro field hfield
  simp only [shape, List.mem_cons, List.not_mem_nil, or_false] at hfield
  rcases hfield with rfl | rfl | rfl <;> exact Json.Decoder.isSettled_map isSettled_rows _

theorem isMarked_shape : shape.IsMarked keep where
  found := by
    intro field hfield
    simp only [shape, List.mem_cons, List.not_mem_nil, or_false] at hfield
    rcases hfield with rfl | rfl | rfl <;> rfl
  sets := by
    intro field hfield other hother room v set hset collected
    simp only [shape, List.mem_cons, List.not_mem_nil, or_false] at hfield hother
    rcases hfield with rfl | rfl | rfl <;>
    · rw [Json.Decoder.reread_map, Option.map_eq_some_iff] at hset
      obtain ⟨rs, -, rfl⟩ := hset
      rcases hother with rfl | rfl | rfl <;> simp
  keeps := by
    intro field hfield key v collected
    simp only [shape, List.mem_cons, List.not_mem_nil, or_false] at hfield
    rcases hfield with rfl | rfl | rfl <;> rfl

/-- A member that is not one of the lists becomes one of the experiment's. -/
theorem take?_of_notMem {key : String} (h : key ∉ listNames) (e : Collected) (v : Json) :
    shape.take? room keep e (key, v) = (v.reread room).map fun value => keep key value e := by
  have hnone : shape.fields.find? (·.name == key) = none := by
    refine List.find?_eq_none.2 fun field hfield hname => h ?_
    rw [← beq_iff_eq.1 hname]
    exact List.mem_map_of_mem hfield
  unfold Json.Shape.take?
  simp only [hnone]

/-- Members that are none of the lists are decoded as those of an object. -/
theorem foldlM_own {ms : List (String × Json)} (h : ∀ m ∈ ms, m.1 ∉ listNames) (e : Collected) :
    ms.foldlM (shape.take? room keep) e =
      (ms.mapM fun m => (Json.reread room m.2).map (m.1, ·)).map fun ms =>
        { e with experiment := ms.foldl (fun doc m => doc.insert m.1 m.2.canonical) e.experiment } := by
  induction ms generalizing e with
  | nil => rfl
  | cons m ms ih =>
    obtain ⟨key, v⟩ := m
    obtain ⟨hkey, hms⟩ := List.forall_mem_cons.1 h
    rw [List.foldlM_cons, List.mapM_cons, take?_of_notMem hkey]
    simp only
    cases v.reread room with
    | none => rfl
    | some value =>
      simp only [Option.map_some, Option.bind_eq_bind, Option.bind_some, ih hms]
      cases ms.mapM fun m => (Json.reread room m.2).map (m.1, ·) <;> rfl

theorem foldlM_experiment {ms : List (String × Json)} (h : ∀ m ∈ ms, m.1 ∉ listNames) :
    ms.foldlM (shape.take? room keep) {} =
      (Json.Decoder.object.reread (room + 1) (.object ms)).map fun doc => { experiment := doc } := by
  rw [foldlM_own h, Json.Decoder.reread_object, Option.map_map]
  refine congrArg (Option.map · _) (funext fun ms => ?_)
  rw [Function.comp_apply, Json.canonicalMembers_eq_map, Members.ofList, List.foldl_map]

/-- A list that was not there yet is taken as its rows. -/
theorem take?_list {field : Json.Field Collected} (hfield : field ∈ shape.fields)
    {set : List Document → Collected → Collected} (hdecoder : field.decoder = rows.map set)
    {e : Collected} (hfree : field.isSet e = false) (v : Json) :
    shape.take? room keep e (field.name, v) = (rows.reread room v).map fun rs => set rs e := by
  unfold Json.Shape.take?
  simp only [isMarked_shape.found field hfield, hfree, Bool.false_eq_true, if_false, hdecoder,
    Json.Decoder.reread_map, Option.map_map]
  rfl

/-- The lists of a detail, taken after its experiment. -/
theorem foldlM_lists (room : Nat) (doc : Document) (v w x : Json) :
    [("transformations", v), ("tests", w), ("analytics", x)].foldlM (shape.take? room keep)
        { experiment := doc } =
      (rows.reread room v).bind fun transformations => (rows.reread room w).bind fun tests =>
        (rows.reread room x).map fun analytics =>
          ⟨doc, some transformations, some tests, some analytics⟩ := by
  rw [List.foldlM_cons, take?_list List.mem_cons_self rfl rfl]
  cases rows.reread room v with
  | none => rfl
  | some transformations =>
    simp only [Option.map_some, Option.bind_eq_bind, Option.bind_some]
    rw [List.foldlM_cons, take?_list (List.mem_cons_of_mem _ List.mem_cons_self) rfl rfl]
    cases rows.reread room w with
    | none => rfl
    | some tests =>
      simp only [Option.map_some, Option.bind_eq_bind, Option.bind_some]
      rw [List.foldlM_cons,
        take?_list (List.mem_cons_of_mem _ (List.mem_cons_of_mem _ List.mem_cons_self)) rfl rfl]
      cases rows.reread room x <;> rfl

/-- The rows of a list are decoded as themselves just if each is read as itself. -/
theorem reread_rows_iff {rs : List Document} :
    rows.reread (room + 1) (rowsToJson rs) = some rs ↔
      ∀ row ∈ rs, (Json.object row).Rereads room := by
  rw [rows, rowsToJson, Json.Decoder.reread_list Json.Decoder.isSettled_object,
    Json.mapM_eq_some_iff, List.forall₂_map_left_iff, List.forall₂_same]
  exact forall₂_congr fun row _ => Json.Decoder.reread_object_iff

/-! ## Reading the text of a detail -/

/-- What is collected of a detail. -/
def collected (d : Detail) : Collected :=
  ⟨d.experiment, some d.transformations, some d.tests, some d.analytics⟩

theorem finish_eq_ok_iff {e : Collected} : finish e = .ok d ↔ e = d.collected := by
  constructor
  · intro h
    obtain ⟨doc, transformations?, tests?, analytics?⟩ := e
    cases transformations? with
    | none => cases h
    | some transformations =>
      cases tests? with
      | none => cases h
      | some tests =>
        cases analytics? with
        | none => cases h
        | some analytics =>
          obtain rfl := Except.ok.inj h
          rfl
  · rintro rfl
    rfl

theorem parse_eq_ok_iff {ms : List (String × Json)} :
    decoder.parse (Json.object ms).render = .ok d ↔
      ms.foldlM (shape.take? (maxDepth - 1) keep) {} = some d.collected := by
  have hparse : decoder.parse (Json.object ms).render = .ok d ↔ _ :=
    Json.Shape.parse_render_iff rfl isSettled_fields
  rw [hparse]
  constructor
  · rintro ⟨e, hfold, hfinish⟩
    rwa [← finish_eq_ok_iff.1 hfinish]
  · exact fun hfold => ⟨_, hfold, finish_eq_ok_iff.2 rfl⟩

theorem map_fst_toJson (d : Detail) :
    d.toJson.membersOf.map Prod.fst = d.experiment.map Prod.fst ++ listNames :=
  List.map_append

/-- The text of a detail whose experiment names a list is not read at all. -/
theorem notMem_listNames_of_parse {d' : Detail} (h : decoder.parse d.toJson.render = .ok d') :
    ∀ m ∈ d.experiment, m.1 ∉ listNames := by
  intro m hm hname
  obtain ⟨field, hfield, hfieldname⟩ := List.mem_map.1 hname
  -- The text has each name once for its list, which is all that the decoder takes.
  have hcount : (d.toJson.membersOf.map Prod.fst).count field.name ≤ 1 :=
    (isMarked_shape.count_le hfield (parse_eq_ok_iff.1 h)).trans (by split <;> omega)
  rw [map_fst_toJson, List.count_append, hfieldname] at hcount
  have hexperiment := List.count_pos_iff.2 (List.mem_map_of_mem (f := Prod.fst) hm)
  have hlists := List.count_pos_iff.2 hname
  omega

/-- Without such a member the experiment and the rows are decoded each on its own. -/
theorem parse_toJson_of_own (hown : ∀ m ∈ d.experiment, m.1 ∉ listNames) :
    decoder.parse d.toJson.render = .ok d ↔ (Json.object d.experiment).Rereads maxDepth ∧
      ∀ row ∈ d.children, (Json.object row).Rereads (maxDepth - 2) := by
  have hroom : maxDepth - 1 = maxDepth - 2 + 1 := rfl
  rw [toJson, parse_eq_ok_iff, List.foldlM_append, foldlM_experiment hown, children,
    List.forall_mem_append, List.forall_mem_append, and_assoc, hroom, ← reread_rows_iff,
    ← reread_rows_iff, ← reread_rows_iff, ← Json.Decoder.reread_object_iff]
  constructor
  · intro h
    obtain ⟨e, he, hlists⟩ := Option.bind_eq_some_iff.1 h
    obtain ⟨doc, hdoc, rfl⟩ := Option.map_eq_some_iff.1 he
    rw [foldlM_lists] at hlists
    obtain ⟨transformations, htransformations, hlists⟩ := Option.bind_eq_some_iff.1 hlists
    obtain ⟨tests, htests, hlists⟩ := Option.bind_eq_some_iff.1 hlists
    obtain ⟨analytics, hanalytics, hcollected⟩ := Option.map_eq_some_iff.1 hlists
    obtain ⟨rfl, heqs⟩ := Collected.mk.inj hcollected
    obtain ⟨rfl, rfl, rfl⟩ : transformations = d.transformations ∧ tests = d.tests ∧
        analytics = d.analytics :=
      ⟨Option.some.inj heqs.1, Option.some.inj heqs.2.1, Option.some.inj heqs.2.2⟩
    exact ⟨hdoc, htransformations, htests, hanalytics⟩
  · rintro ⟨hdoc, htransformations, htests, hanalytics⟩
    have hfold := foldlM_lists (maxDepth - 2 + 1) d.experiment (rowsToJson d.transformations)
      (rowsToJson d.tests) (rowsToJson d.analytics)
    rw [htransformations, htests, hanalytics] at hfold
    exact Option.bind_eq_some_iff.2 ⟨_, Option.map_eq_some_iff.2 ⟨_, hdoc, rfl⟩, hfold⟩

/-- What it takes for the text of a detail to be read as the detail. -/
theorem parse_toJson_iff : decoder.parse d.toJson.render = .ok d ↔
    (∀ m ∈ d.experiment, m.1 ∉ listNames) ∧ (Json.object d.experiment).Rereads maxDepth ∧
      ∀ row ∈ d.children, (Json.object row).Rereads (maxDepth - 2) := by
  constructor
  · intro h
    have hown := notMem_listNames_of_parse h
    exact ⟨hown, (parse_toJson_of_own hown).1 h⟩
  · rintro ⟨hown, h⟩
    exact (parse_toJson_of_own hown).2 h

/-- A detail is faithful just if its text is read as itself. -/
theorem isFaithful_iff : d.IsFaithful ↔ decoder.parse d.toJson.render = .ok d := by
  refine ⟨IsFaithful.reads, fun h => ⟨?_, h⟩⟩
  obtain ⟨hown, hreads, -⟩ := parse_toJson_iff.1 h
  have hsorted := (Json.canonical_object_iff.1 hreads.canonical).1
  have hkeys : (d.experiment.map Prod.fst).Nodup := by
    apply (Members.sorted_iff_keys.1 hsorted).imp
    rintro key _ hlt rfl
    exact String.lt_irrefl key hlt
  rw [map_fst_toJson, List.nodup_append]
  refine ⟨hkeys, by decide, fun key hkey name hname heq => ?_⟩
  obtain ⟨m, hm, rfl⟩ := List.mem_map.1 hkey
  exact hown m hm (heq ▸ hname)

end Detail

/-! ## Details that are answered -/

/-- Whether a row is what makes a document: its keys are in order, each once, at every level. -/
def Document.IsCanonical (row : Document) : Prop :=
  (Json.object row).canonical = Json.object row

/-- Whether a row is the one that an experiment is recorded as with this metadata. -/
def Document.IsExperimentOf (metadata : Json) (row : Document) : Prop :=
  ∃ stamp w, (Recorder.Entry.experiment metadata).write? stamp = some w ∧ w.row = row

/-- Whether the documents that a store answers in its sessions are canonical. -/
structure AnswersCanonical {σ τ : Type} [DocumentStore σ τ] (s : σ) : Prop where
  get : ∀ opened, DocumentStore.openSession s = .ok opened → ∀ c id row,
    DocumentStore.get opened c id = .ok (some row) → row.IsCanonical
  filterEq : ∀ opened, DocumentStore.openSession s = .ok opened → ∀ c key value rows,
    DocumentStore.filterEq opened c key value = .ok rows → ∀ row ∈ rows, row.IsCanonical

theorem MemoryStore.answersCanonical {s : MemoryStore}
    (h : ∀ c, ∀ row ∈ s.rows.get c, row.IsCanonical) : AnswersCanonical s := by
  have hopened : ∀ opened, DocumentStore.openSession s = .ok opened → opened.rows = s.rows := by
    intro opened hopen
    change s.openSession = _ at hopen
    unfold MemoryStore.openSession at hopen
    split at hopen
    · cases hopen
    · rw [← Except.ok.inj hopen]
  constructor
  · intro opened hopen c id row hrow
    have hfind := Delivery.query_eq_ok hrow
    rw [hopened opened hopen] at hfind
    exact h c row (List.mem_of_find?_eq_some hfind)
  · intro opened hopen c key value rows hrows row hrow
    have hfilter := Delivery.query_eq_ok hrows
    rw [hopened opened hopen] at hfilter
    rw [← hfilter] at hrow
    exact h c row (List.mem_of_mem_filter hrow)

namespace TableStore

theorem isCanonical_of_readBody {body : String} {row : Document} (h : readBody body = .ok row) :
    row.IsCanonical := by
  unfold readBody at h
  split at h
  · obtain rfl := Except.ok.inj h
    exact (Json.fitsIn_of_parse ‹_›).2
  · cases h
  · cases h

theorem isCanonical_of_readBodies {c : Collection} {bodies : List String} {rows : List Document}
    (h : readBodies c bodies = .ok rows) : ∀ row ∈ rows, row.IsCanonical :=
  forall_of_mapM_eq_ok (fun _ _ _ => isCanonical_of_readBody) (mapM_of_readBodies h)

theorem isCanonical_of_get {s : TableStore} {c : Collection} {id : String} {row : Document}
    (h : s.get c id = .ok (some row)) : row.IsCanonical := by
  obtain ⟨body?, -, h⟩ := exists_of_bind_eq_ok h
  split at h
  · cases h
  · split at h
    · obtain rfl := Option.some.inj (Except.ok.inj h)
      exact isCanonical_of_readBody ‹_›
    · cases h

theorem isCanonical_of_filterEq {s : TableStore} {c : Collection} {key : String} {value : Json}
    {rows : List Document} (h : s.filterEq c key value = .ok rows) :
    ∀ row ∈ rows, row.IsCanonical := by
  obtain ⟨bodies, -, h⟩ := exists_of_bind_eq_ok h
  obtain ⟨docs, hdocs, h⟩ := exists_of_bind_eq_ok h
  obtain rfl : docs.filter (·.hasAt key value) = rows := Except.ok.inj h
  exact fun row hrow => isCanonical_of_readBodies hdocs row (List.mem_of_mem_filter hrow)

theorem answersCanonical (s : TableStore) : AnswersCanonical s :=
  ⟨fun _ _ _ _ _ h => isCanonical_of_get h, fun _ _ _ _ _ _ h => isCanonical_of_filterEq h⟩

end TableStore

namespace Detail

variable {d : Detail}

/-- Whether a detail is what a store answers to the question for some id. -/
inductive IsAnswered (d : Detail) : Prop where
  | memory (s : MemoryStore) (id : String) (hrows : ∀ c, ∀ row ∈ s.rows.get c, row.IsCanonical)
    (h : (Query.detail s id).1 = .ok (some d))
  | table (s : TableStore) (id : String) (h : (Query.detail s id).1 = .ok (some d))

/-- Whether every document of a detail is canonical. -/
structure IsCanonical (d : Detail) : Prop where
  experiment : d.experiment.IsCanonical
  children : ∀ row ∈ d.children, row.IsCanonical

/-- Whether a reader of the text of a detail has room for its documents: for the experiment as much
as for any object, for the other rows what is left inside their lists. -/
structure LeavesRoom (d : Detail) : Prop where
  experiment : (Json.object d.experiment).FitsIn maxDepth
  children : ∀ row ∈ d.children, (Json.object row).FitsIn (maxDepth - 2)

/-- Whether the real numbers of a detail are read as themselves. -/
structure RealsReadBack (d : Detail) : Prop where
  experiment : (Json.object d.experiment).RealsReadBack
  children : ∀ row ∈ d.children, (Json.object row).RealsReadBack

theorem join_eq_some {experiment : Except StoreError (Option Document)}
    {belonging : Collection → Except StoreError (List Document)}
    (h : Query.join experiment belonging = .ok (some d)) :
    experiment = .ok (some d.experiment) ∧ belonging .transformations = .ok d.transformations ∧
      belonging .tests = .ok d.tests ∧ belonging .analytics = .ok d.analytics := by
  unfold Query.join at h
  split at h
  · cases h
  · cases h
  · obtain ⟨transformations, htransformations, h⟩ := exists_of_bind_eq_ok h
    obtain ⟨tests, htests, h⟩ := exists_of_bind_eq_ok h
    obtain ⟨analytics, hanalytics, h⟩ := exists_of_bind_eq_ok h
    obtain rfl := Option.some.inj (Except.ok.inj h)
    exact ⟨rfl, htransformations, htests, hanalytics⟩

section

variable {σ τ α : Type} [DocumentStore σ τ]

/-- An answer of a session is one of the store that the session was opened on. -/
theorem inSession_eq_ok {s : σ} {ask : σ → Except StoreError α} {answer : α}
    (h : (DocumentStore.inSession s ask).1 = .ok answer) :
    ∃ opened, DocumentStore.openSession s = .ok opened ∧ ask opened = .ok answer := by
  unfold DocumentStore.inSession at h
  split at h
  · cases h
  · split at h
    · obtain rfl := Except.ok.inj h
      exact ⟨_, ‹_›, ‹_›⟩
    · cases h

theorem isCanonical_of_detail {s : σ} (hs : AnswersCanonical s) {id : String}
    (h : (Query.detail s id).1 = .ok (some d)) : d.IsCanonical := by
  obtain ⟨opened, hopen, hjoin⟩ := inSession_eq_ok h
  obtain ⟨hget, htransformations, htests, hanalytics⟩ := join_eq_some hjoin
  refine ⟨hs.get opened hopen _ _ _ hget, ?_⟩
  unfold children
  rw [List.forall_mem_append, List.forall_mem_append]
  exact ⟨⟨hs.filterEq opened hopen _ _ _ _ htransformations,
    hs.filterEq opened hopen _ _ _ _ htests⟩, hs.filterEq opened hopen _ _ _ _ hanalytics⟩

end

theorem isCanonical_of_isAnswered (h : d.IsAnswered) : d.IsCanonical := by
  cases h with
  | memory s id hrows h => exact isCanonical_of_detail (MemoryStore.answersCanonical hrows) h
  | table s id h => exact isCanonical_of_detail (TableStore.answersCanonical s) h

theorem isFaithful_iff_of_isCanonical (h : d.IsCanonical) : d.IsFaithful ↔
    (∀ m ∈ d.experiment, m.1 ∉ listNames) ∧ d.LeavesRoom ∧ d.RealsReadBack := by
  rw [isFaithful_iff, parse_toJson_iff]
  constructor
  · rintro ⟨hown, hexperiment, hchildren⟩
    exact ⟨hown, ⟨Json.fitsIn_of_reread hexperiment.reread,
      fun row hrow => Json.fitsIn_of_reread (hchildren row hrow).reread⟩,
      hexperiment.realsReadBack, fun row hrow => (hchildren row hrow).realsReadBack⟩
  · rintro ⟨hown, hroom, hreals⟩
    exact ⟨hown, Json.rereads_of_fitsIn hroom.experiment h.experiment hreals.experiment,
      fun row hrow => Json.rereads_of_fitsIn (hroom.children row hrow) (h.children row hrow)
        (hreals.children row hrow)⟩

/-- An experiment has the names that its metadata have, apart from the two that it is given. -/
theorem mem_names_iff {metadata : Json} {row : Document} (h : row.IsExperimentOf metadata)
    {name : String} (hid : name ≠ Document.idKey) (hcreatedAt : name ≠ Document.createdAtKey) :
    (∀ m ∈ row, m.1 ≠ name) ↔ ∀ m ∈ metadata.membersOf, m.1 ≠ name := by
  obtain ⟨stamp, w, hw, rfl⟩ := h
  have hother := (Recorder.Entry.isRecordedAs_of_write? hw).atOther name hid hcreatedAt
  have hnone : ∀ ms : List (String × Json),
      (∀ m ∈ ms, m.1 ≠ name) ↔ List.lookup name ms = none := by
    intro ms
    rw [List.lookup_eq_none_iff]
    exact forall₂_congr fun m _ => bne_iff_ne.symm.trans (by rw [bne_comm])
  rw [hnone, hnone]
  exact Eq.congr hother rfl

theorem own_iff_of_isExperimentOf {metadata : Json} {row : Document}
    (h : row.IsExperimentOf metadata) :
    (∀ m ∈ row, m.1 ∉ listNames) ↔ ∀ m ∈ metadata.membersOf, m.1 ∉ listNames := by
  have hne : ∀ name ∈ listNames, name ≠ Document.idKey ∧ name ≠ Document.createdAtKey := by decide
  have hnames : ∀ ms : List (String × Json), (∀ m ∈ ms, m.1 ∉ listNames) ↔
      ∀ name ∈ listNames, ∀ m ∈ ms, m.1 ≠ name := fun ms =>
    ⟨fun hown name hname m hm heq => hown m hm (heq ▸ hname),
      fun hown m hm hname => hown m.1 hname m hm rfl⟩
  rw [hnames, hnames]
  exact forall₂_congr fun name hname => mem_names_iff h (hne name hname).1 (hne name hname).2

/-- The text of the detail of an experiment that was recorded with some metadata is an object
without repeated keys, and is read as the detail, just if the metadata have no member with the name
of a list, readers have room for every document, and its real numbers are read as themselves. -/
theorem faithful_iff {metadata : Json} (hanswered : d.IsAnswered)
    (hrecorded : d.experiment.IsExperimentOf metadata) : d.IsFaithful ↔
      (∀ m ∈ metadata.membersOf, m.1 ∉ listNames) ∧ d.LeavesRoom ∧ d.RealsReadBack := by
  rw [← own_iff_of_isExperimentOf hrecorded]
  exact isFaithful_iff_of_isCanonical (isCanonical_of_isAnswered hanswered)

/-- The detail of an experiment with a name and one test. -/
theorem faithful_with_one_test :
    let metadata := Json.object [("id", .string "e"), ("name", .string "mice")]
    let calls : List (Recorder.Stamp × Recorder.Entry) :=
      [(⟨"2024-01-01T00:00:00.000000Z", "g"⟩, .experiment metadata),
        (⟨"2024-01-01T00:00:01.000000Z", "h"⟩, .test "e" "1" (.array [.string "passed"]))]
    let s := (Recorder.recordAll MemoryStore.empty calls).2
    ∃ d, (Query.detail s "e").1 = .ok (some d) ∧ d.experiment.IsExperimentOf metadata ∧
      d.tests.length = 1 ∧ d.IsFaithful := by
  intro metadata calls s
  let experiment : Document := [("createdAt", .string "2024-01-01T00:00:00.000000Z"),
    ("id", .string "e"), ("name", .string "mice")]
  let test : Document := [("createdAt", .string "2024-01-01T00:00:01.000000Z"),
    ("experiment_id", .string "e"), ("id", .string "h"), ("test_data", .array [.string "passed"]),
    ("version", .string "1")]
  have hexperiment : (Json.object experiment).Rereads maxDepth := by
    refine Json.rereads_object_iff.2 ⟨Members.sorted_iff_keys.2 (by decide), ?_⟩
    simp [experiment, Json.rereads_string]
  have htest : (Json.object test).Rereads (maxDepth - 2) := by
    refine Json.rereads_object_iff.2 ⟨Members.sorted_iff_keys.2 (by decide), ?_⟩
    have hdata : (Json.array [.string "passed"]).Rereads 124 :=
      Json.rereads_array_iff.2 (List.forall_mem_singleton.2 (Json.rereads_string _ _))
    simpa [test, Json.rereads_string] using hdata
  have hrows : ∀ c, ∀ row ∈ s.rows.get c, row.IsCanonical := by
    intro c
    cases c with
    | experiments => exact List.forall_mem_singleton.2 hexperiment.canonical
    | tests => exact List.forall_mem_singleton.2 htest.canonical
    | transformations | analytics => exact fun _ hrow => absurd hrow List.not_mem_nil
  have hanswered : Detail.IsAnswered ⟨experiment, [], [test], []⟩ := .memory s "e" hrows rfl
  have hrecorded : experiment.IsExperimentOf metadata :=
    ⟨⟨"2024-01-01T00:00:00.000000Z", "g"⟩, _, rfl, rfl⟩
  refine ⟨_, rfl, hrecorded, rfl, (faithful_iff hanswered hrecorded).2 ⟨by decide, ?_, ?_⟩⟩
  · exact ⟨Json.fitsIn_of_reread hexperiment.reread,
      List.forall_mem_singleton.2 (Json.fitsIn_of_reread htest.reread)⟩
  · exact ⟨hexperiment.realsReadBack, List.forall_mem_singleton.2 htest.realsReadBack⟩

/-- An experiment with a member named as the list of the tests is recorded and answered, and the
text of the answer has that key twice. No detail is read from it. -/
theorem unreadable_with_metadata_named_tests :
    let metadata := Json.object [("id", .string "e"), ("tests", .array [])]
    let recorded := Recorder.record MemoryStore.empty ⟨"2024-05-01T12:00:00.000000Z", "g"⟩
      (.experiment metadata)
    recorded.1 = .ok "e" ∧ ∃ d, (Query.detail recorded.2 "e").1 = .ok (some d) ∧
      ¬ d.IsFaithful ∧ ∀ d', decoder.parse d.toJson.render ≠ .ok d' := by
  intro metadata recorded
  let experiment : Document := [("createdAt", .string "2024-05-01T12:00:00.000000Z"),
    ("id", .string "e"), ("tests", .array [])]
  have htests : ("tests", Json.array []) ∈ experiment :=
    List.mem_cons_of_mem _ (List.mem_cons_of_mem _ List.mem_cons_self)
  have hrefused : ∀ d', decoder.parse (toJson ⟨experiment, [], [], []⟩).render ≠ .ok d' :=
    fun d' h => notMem_listNames_of_parse h _ htests (by decide)
  exact ⟨rfl, ⟨experiment, [], [], []⟩, rfl, fun h => hrefused _ h.reads, hrefused⟩

end Detail

end TrialBoard
