import TrialBoard.Proofs.Agreement
import TrialBoard.Proofs.Interleaving
import TrialBoard.Query

/-!
# A live view and a fresh one

A view can be filled in from a detail at any point of a run of writes and take in the later ones as
changes, or be filled in after all of them. Both ways show the same transformations and tests.

Of analytics a view shows one row. A detail fills in the first of its list and a change puts its own
row in that place, so the live view shows the last row that was written after its detail was read,
and the first of the list only if none was.

It holds of any store that answers from the rows it was given (`KeepsRows`), as both kinds do.
-/

namespace TrialBoard

open Document (hasId hasId_iff)
open ExperimentView (upsertRow)

/-! ## Writes among rows -/

namespace Write

/-- The rows of the collections after a write. -/
def into (w : Write) (rows : ByCollection (List Document)) : ByCollection (List Document) :=
  rows.set w.collection (upsertRow w.row (rows.get w.collection))

/-- What is passed on of a write. -/
def feed (w : Write) : ChangeFeed := ⟨w.collection, .object w.row⟩

/-- Whether a write leaves its row with the experiment that it had. -/
def KeepsOwner (rows : ByCollection (List Document)) (w : Write) : Prop :=
  ∀ r ∈ rows.get w.collection, r.id? = some w.id → r.experiment? = w.row.experiment?

end Write

/-- The rows of the collections after writes. -/
def intoAll (rows : ByCollection (List Document)) (writes : List Write) :
    ByCollection (List Document) :=
  writes.foldl (fun rows w => w.into rows) rows

/-- The rows of a collection that belong to an experiment. -/
def belonging (rows : ByCollection (List Document)) (id : String) (c : Collection) :
    List Document :=
  (rows.get c).filter fun row => row.experiment? == some id

/-- The detail of an experiment among the rows of the collections. -/
def Detail.among? (rows : ByCollection (List Document)) (id : String) : Option Detail :=
  ((rows.get .experiments).find? (hasId id)).map fun experiment =>
    { experiment
      transformations := belonging rows id .transformations
      tests := belonging rows id .tests
      analytics := belonging rows id .analytics }

variable {rows : ByCollection (List Document)} {w : Write} {writes : List Write} {id : String}
  {c : Collection}

theorem belonging_into (h : w.KeepsOwner rows) (id : String) (c : Collection) :
    belonging (w.into rows) id c = upsertAll (belonging rows id c) (pushedTo id c [w.feed]) := by
  unfold belonging Write.into
  by_cases hc : c = w.collection
  · subst hc
    have hsame : ∀ r ∈ rows.get w.collection, r.id? = some w.id →
        (r.experiment? == some id) = (w.row.experiment? == some id) :=
      fun r hr hid => by rw [h r hr hid]
    rw [ByCollection.get_set_self, filter_upsertRow w.id?_row hsame, Write.feed, pushedTo_object]
    by_cases howner : w.row.experiment? = some id
    · simp [howner]
    · simp [howner]
  · rw [ByCollection.get_set_of_ne _ hc, pushedTo_eq_nil (Ne.symm hc), upsertAll_nil]

theorem any_experiment_into (h : (rows.get .experiments).any (hasId id) = true) (w : Write) :
    ((w.into rows).get .experiments).any (hasId id) = true := by
  unfold Write.into
  by_cases hc : Collection.experiments = w.collection
  · rw [← hc, ByCollection.get_set_self, any_hasId_upsertRow, h, Bool.true_or]
  · rwa [ByCollection.get_set_of_ne _ hc]

theorem any_experiment_intoAll (h : (rows.get .experiments).any (hasId id) = true)
    (writes : List Write) :
    ((intoAll rows writes).get .experiments).any (hasId id) = true := by
  induction writes generalizing rows with
  | nil => exact h
  | cons w writes ih => exact ih (any_experiment_into h w)

theorem Detail.exists_among? (h : (rows.get .experiments).any (hasId id) = true) :
    ∃ detail, Detail.among? rows id = some detail ∧ detail.experiment.id? = some id ∧
      ∀ c, c ≠ .experiments → detail.rowsOf c = belonging rows id c := by
  obtain ⟨experiment, hfind⟩ := Option.isSome_iff_exists.1 (List.isSome_find?.trans h)
  refine ⟨_, by rw [Detail.among?, hfind]; rfl, hasId_iff.1 (List.find?_some hfind), fun c hc => ?_⟩
  cases c with
  | experiments => exact absurd rfl hc
  | transformations | tests | analytics => rfl

/-! ## Stores that keep rows -/

namespace DocumentStore

variable {σ τ : Type} [DocumentStore σ τ]

/-- One write. -/
def write (s : σ) : Write → Except StoreError σ
  | .insert c fresh doc => (insert s c fresh doc).map Prod.snd
  | .upsert c id doc => upsert s c id doc

/-- Writes one after the other. -/
def writeAll (s : σ) : List Write → Except StoreError σ
  | [] => .ok s
  | w :: writes => write s w >>= fun s => writeAll s writes

end DocumentStore

/-- A store that answers from the rows that were written, and takes every write of a document that
it can hold which adds no row under an id that is taken. -/
class KeepsRows (σ : Type) {τ : outParam Type} [DocumentStore σ τ] where
  /-- Which rows a store holds. -/
  Holds : σ → ByCollection (List Document) → Prop
  /-- Whether a document can be held. -/
  CanHold : Document → Prop
  detail {s : σ} {rows : ByCollection (List Document)} (h : Holds s rows) (id : String) :
    (Query.detail s id).1 = .ok (Detail.among? rows id) ∧ Holds (Query.detail s id).2 rows
  write {s : σ} {rows : ByCollection (List Document)} {w : Write} (h : Holds s rows)
    (hrow : CanHold w.row) (hfree : w.IsFree rows) :
    ∃ s', DocumentStore.write s w = .ok s' ∧ Holds s' (w.into rows)

/-- A detail is put together from what is answered of the rows. -/
theorem Query.detail_of_rows {σ τ : Type} [DocumentStore σ τ] {s opened : σ}
    (hopen : DocumentStore.openSession s = .ok opened)
    (hget : DocumentStore.get opened .experiments id =
      .ok ((rows.get .experiments).find? (hasId id)))
    (hfilter : ∀ c, DocumentStore.filterEq opened c Document.experimentKey (.string id) =
      .ok (belonging rows id c)) :
    Query.detail s id = (.ok (Detail.among? rows id), DocumentStore.closeSession opened) := by
  simp only [Query.detail, DocumentStore.inSession, hopen, hget, hfilter, Query.join,
    Detail.among?]
  cases (rows.get .experiments).find? (hasId id) <;> rfl

namespace MemoryStore

variable {s : MemoryStore}

theorem filterEq_of_faultless (h : s.faults = {}) (c : Collection) (id : String) :
    s.filterEq c Document.experimentKey (.string id) = .ok (belonging s.rows id c) := by
  rw [filterEq, query_of_faultless h]
  exact congrArg _ (List.filter_congr fun row _ => row.hasAt_string Document.experimentKey id)

theorem detail_of_faultless (h : s.faults = {}) (id : String) :
    Query.detail s id = (.ok (Detail.among? s.rows id), s) := by
  have hopen : DocumentStore.openSession s = .ok { s with openSessions := s.openSessions + 1 } := by
    change s.openSession = _
    simp [openSession, h]
  exact Query.detail_of_rows hopen (query_of_faultless h _ _) (filterEq_of_faultless h · id)

theorem write_of_faultless (h : s.faults = {}) {w : Write} (hfree : w.IsFree s.rows) :
    DocumentStore.write s w = .ok (s.written w) := by
  cases w with
  | insert c fresh doc =>
    change (s.insert c fresh doc).map Prod.snd = _
    rw [insert_of_faultless h hfree]
    rfl
  | upsert c id doc => exact upsert_of_faultless h id doc

/-- A store in memory that no fault stops keeps rows of every kind. -/
instance : KeepsRows MemoryStore where
  Holds s rows := s.faults = {} ∧ s.rows = rows
  CanHold _ := True
  detail := by
    rintro s _ ⟨h, rfl⟩ id
    rw [detail_of_faultless h]
    exact ⟨rfl, h, rfl⟩
  write := by
    rintro s _ w ⟨h, rfl⟩ - hfree
    exact ⟨s.written w, write_of_faultless h hfree, h, rows_written s w⟩

end MemoryStore

namespace TableStore

/-- A store in a database keeps rows whose text reads back, if its tables let rows be replaced. -/
instance : KeepsRows TableStore where
  Holds s rows := s.IsReady rows ∧ CanReplace s.names
  CanHold row := row.ReadsBack
  detail := by
    intro s rows ⟨h, hreplace⟩ id
    have hdetail : Query.detail s id = (.ok (Detail.among? rows id), s) :=
      Query.detail_of_rows (openSession_of_open h.isOpen) (get_of_holds h.holds _ id)
        (filterEq_of_holds h.holds Extract.isPlain_experimentKey · id)
    rw [hdetail]
    exact ⟨rfl, h, hreplace⟩
  write := by
    intro s rows w ⟨h, hreplace⟩ hrow hfree
    obtain ⟨s', hwrite⟩ := h.exists_write hfree
    obtain ⟨hready, hnames⟩ := h.write hrow hwrite
    rw [rowsAfter_of_canReplace hreplace] at hready
    refine ⟨s', ?_, hready, hnames ▸ hreplace⟩
    cases w <;> exact hwrite

end TableStore

/-! ## Runs of writes -/

section Runs

variable {σ τ : Type} [DocumentStore σ τ] [KeepsRows σ] {s : σ}

open KeepsRows (Holds CanHold)

/-- Whether writes can be made one after the other: a store can hold their rows, none adds a row
under an id that is taken, and each row stays with its experiment. -/
def CanMake (σ : Type) {τ : Type} [DocumentStore σ τ] [KeepsRows σ] :
    ByCollection (List Document) → List Write → Prop
  | _, [] => True
  | rows, w :: writes =>
    (CanHold σ w.row ∧ w.IsFree rows ∧ w.KeepsOwner rows) ∧ CanMake σ (w.into rows) writes

theorem canMake_append {before after : List Write} (h : CanMake σ rows (before ++ after)) :
    CanMake σ rows before ∧ CanMake σ (intoAll rows before) after := by
  induction before generalizing rows with
  | nil => exact ⟨trivial, h⟩
  | cons w before ih => exact ⟨⟨h.1, (ih h.2).1⟩, (ih h.2).2⟩

theorem exists_writeAll (h : Holds s rows) (hwrites : CanMake σ rows writes) :
    ∃ s', DocumentStore.writeAll s writes = .ok s' ∧ Holds s' (intoAll rows writes) := by
  induction writes generalizing s rows with
  | nil => exact ⟨s, rfl, h⟩
  | cons w writes ih =>
    obtain ⟨⟨hrow, hfree, -⟩, hwrites⟩ := hwrites
    obtain ⟨next, hwrite, hnext⟩ := KeepsRows.write h hrow hfree
    obtain ⟨s', hrun, hs'⟩ := ih hnext hwrites
    exact ⟨s', by rw [DocumentStore.writeAll, hwrite]; exact hrun, hs'⟩

/-- What belongs to an experiment after writes is what belonged to it before, with the rows pushed
onto it that were written for it. -/
theorem belonging_intoAll (hwrites : CanMake σ rows writes) (id : String) (c : Collection) :
    belonging (intoAll rows writes) id c =
      upsertAll (belonging rows id c) (pushedTo id c (writes.map Write.feed)) := by
  induction writes generalizing rows with
  | nil => rfl
  | cons w writes ih =>
    obtain ⟨⟨-, -, howner⟩, hwrites⟩ := hwrites
    rw [List.map_cons, pushedTo_cons, upsertAll_append, ← belonging_into howner]
    exact ih hwrites

end Runs

/-! ## What the two views show -/

/-- The rows of a collection that a detail fills in. -/
def Detail.known? (detail : Detail) : Collection → Option (List Document)
  | .transformations => some detail.transformations
  | .tests => some detail.tests
  | .analytics => detail.analytics.head?.map ([·])
  | .experiments => none

theorem ExperimentView.known?_fillIn (view : ExperimentView) (detail : Detail) (c : Collection) :
    (view.fillIn detail).known? c = (view.known? c).or (detail.known? c) := by
  cases c with
  | experiments => rfl
  | transformations => cases h : view.transformations? <;> simp [fillIn, known?, Detail.known?, h]
  | tests => cases h : view.tests? <;> simp [fillIn, known?, Detail.known?, h]
  | analytics => cases h : view.analytics? <;> simp [fillIn, known?, Detail.known?, h]

theorem ExperimentView.analytics?_of_known? {view : ExperimentView} {row? : Option Document}
    (h : view.known? .analytics = row?.map ([·])) : view.analytics? = row? :=
  Option.map_injective List.singleton_injective h

theorem Detail.known?_eq_rowsOf (hc : c = .transformations ∨ c = .tests) (detail : Detail) :
    detail.known? c = some (detail.rowsOf c) := by
  rcases hc with rfl | rfl <;> rfl

theorem foldl_takeIn_rows (hc : c = .transformations ∨ c = .tests) (held pushed : List Document) :
    pushed.foldl (takeIn c) (some held) = some (upsertAll held pushed) := by
  induction pushed generalizing held with
  | nil => rfl
  | cons row pushed ih =>
    rw [List.foldl_cons, upsertAll_cons, ← ih]
    rcases hc with rfl | rfl <;> rfl

theorem foldl_takeIn_analytics (known? : Option (List Document)) (pushed : List Document) :
    pushed.foldl (takeIn .analytics) known? = (pushed.getLast?.map ([·])).or known? := by
  induction pushed generalizing known? with
  | nil => rfl
  | cons row pushed ih =>
    rw [List.foldl_cons, ih, List.getLast?_cons]
    cases pushed.getLast? <;> rfl

namespace Dashboard

/-- Whether an experiment is held, and nothing is known of the rows that belong to it. -/
def IsListed (d : Dashboard) (id : String) : Prop :=
  ∃ view, d.experiment? id = some view ∧ ∀ c, view.known? c = none

theorem experiment?_applyDetail {d : Dashboard} {detail : Detail} (hlisted : d.IsListed id)
    (hid : detail.experiment.id? = some id) :
    ∃ view, (d.applyDetail detail).2.experiment? id = some view ∧
      ∀ c, view.known? c = detail.known? c := by
  obtain ⟨view, hview, hnone⟩ := hlisted
  refine ⟨view.fillIn detail, ?_, fun c => ?_⟩
  · simp only [applyDetail, hid]
    rw [experiment?_modify (id?_fillIn detail), hview]
    rfl
  · rw [ExperimentView.known?_fillIn, hnone, Option.none_or]

open KeepsRows (Holds)

/-- Writes can be made one after the other, and an experiment's detail be read between any two of
them and after all. A view that is filled in from the one detail and takes in the later writes, in
any order that keeps to that of each collection, shows the same transformations and tests as a view
that is filled in from the other. The latter shows the first row of the analytics; the former shows
the last one that was written after its detail was read, or else the first row too. -/
theorem live_view_tracks_fresh_view {σ τ : Type} [DocumentStore σ τ] [KeepsRows σ] {s : σ}
    (hholds : Holds s rows) {before after : List Write}
    (hwrites : CanMake σ rows (before ++ after))
    (hstored : ((intoAll rows before).get .experiments).any (hasId id) = true)
    {live fresh : Dashboard} (hlive : live.IsListed id) (hfresh : fresh.IsListed id)
    {feeds : List ChangeFeed} (hfeeds : SameOrders feeds (after.map Write.feed)) :
    ∃ s₁ s₂ detail detail' view view',
      DocumentStore.writeAll s before = .ok s₁ ∧ (Query.detail s₁ id).1 = .ok (some detail) ∧
      DocumentStore.writeAll (Query.detail s₁ id).2 after = .ok s₂ ∧
      (Query.detail s₂ id).1 = .ok (some detail') ∧
      ((live.applyDetail detail).2.applyChanges feeds).experiment? id = some view ∧
      (fresh.applyDetail detail').2.experiment? id = some view' ∧
      view.transformations? = view'.transformations? ∧
      view'.transformations? = some detail'.transformations ∧
      view.tests? = view'.tests? ∧ view'.tests? = some detail'.tests ∧
      view'.analytics? = detail'.analytics.head? ∧
      view.analytics? = (pushedTo id .analytics feeds).getLast?.or view'.analytics? := by
  obtain ⟨hbefore, hafter⟩ := canMake_append hwrites
  obtain ⟨s₁, hrun, hholds₁⟩ := exists_writeAll hholds hbefore
  obtain ⟨hread, hkept⟩ := KeepsRows.detail hholds₁ id
  obtain ⟨s₂, hrun', hholds₂⟩ := exists_writeAll hkept hafter
  obtain ⟨hread', -⟩ := KeepsRows.detail hholds₂ id
  obtain ⟨detail, hamong, hid, hrows⟩ := Detail.exists_among? hstored
  obtain ⟨detail', hamong', hid', hrows'⟩ :=
    Detail.exists_among? (any_experiment_intoAll hstored after)
  obtain ⟨filled, hfilled, hknown⟩ := experiment?_applyDetail hlive hid
  obtain ⟨view, hview, hpushed⟩ := known?_applyChanges_of_held feeds hfilled
  obtain ⟨view', hview', hknown'⟩ := experiment?_applyDetail hfresh hid'
  -- What the second detail has of a collection is the first one's, with what was pushed since.
  have hlater : ∀ c, c ≠ .experiments →
      detail'.rowsOf c = upsertAll (detail.rowsOf c) (pushedTo id c feeds) := by
    intro c hc
    rw [hrows' c hc, hrows c hc, belonging_intoAll hafter, pushedTo, pushedTo,
      hfeeds.pushedInto_eq]
  have hlist : ∀ c, c = .transformations ∨ c = .tests → view.known? c = view'.known? c ∧
      view'.known? c = some (detail'.rowsOf c) := by
    intro c hc
    have hne : c ≠ .experiments := by rcases hc with rfl | rfl <;> decide
    have hfetched : view'.known? c = some (detail'.rowsOf c) := by
      rw [hknown', Detail.known?_eq_rowsOf hc]
    refine ⟨?_, hfetched⟩
    rw [hfetched, hpushed c hne, hknown, Detail.known?_eq_rowsOf hc, foldl_takeIn_rows hc,
      hlater c hne]
  have hfirst : view'.analytics? = detail'.analytics.head? :=
    ExperimentView.analytics?_of_known? (hknown' .analytics)
  have hlast : view.analytics? =
      (pushedTo id .analytics feeds).getLast?.or detail.analytics.head? := by
    refine ExperimentView.analytics?_of_known? ?_
    rw [hpushed .analytics (by decide), foldl_takeIn_analytics, hknown, Option.map_or]
    rfl
  refine ⟨s₁, s₂, detail, detail', view, view', hrun, by rw [hread, hamong], hrun',
    by rw [hread', hamong'], hview, hview', (hlist .transformations (.inl rfl)).1,
    (hlist .transformations (.inl rfl)).2, (hlist .tests (.inr rfl)).1,
    (hlist .tests (.inr rfl)).2, hfirst, ?_⟩
  cases hpushed : (pushedTo id .analytics feeds).getLast? with
  | some row => rw [hlast, hpushed, Option.some_or, Option.some_or]
  | none =>
    have hsame : detail'.analytics = detail.analytics := by
      have h := hlater .analytics (by decide)
      rwa [List.getLast?_eq_none_iff.1 hpushed] at h
    rw [hlast, hpushed, hfirst, hsame]

/-- A transformation is written again and a test is added after the detail was read, and the changes
come in the other order. -/
theorem live_view_tracks_rewritten_row :
    let row (id : String) (note : Json) : Document :=
      [("experiment_id", .string "e"), ("id", .string id), ("note", note)]
    let before : List Write := [.insert .experiments "" [("id", .string "e")],
      .insert .transformations "" (row "t" (.bool false)), .insert .analytics "" (row "a" .null)]
    let after : List Write :=
      [.upsert .transformations "t" (row "t" (.bool true)), .insert .tests "" (row "x" .null)]
    let feeds := (after.map Write.feed).reverse
    let listed := (Dashboard.empty.load [[("id", .string "e")]]).2
    (Holds MemoryStore.empty (.ofFn fun _ => []) ∧
      CanMake MemoryStore (.ofFn fun _ => []) (before ++ after) ∧
      ((intoAll (.ofFn fun _ => []) before).get .experiments).any (hasId "e") = true ∧
      listed.IsListed "e" ∧ SameOrders feeds (after.map Write.feed)) ∧
    ∃ s₁ s₂ detail detail' view view',
      DocumentStore.writeAll MemoryStore.empty before = .ok s₁ ∧
      (Query.detail s₁ "e").1 = .ok (some detail) ∧
      DocumentStore.writeAll (Query.detail s₁ "e").2 after = .ok s₂ ∧
      (Query.detail s₂ "e").1 = .ok (some detail') ∧
      ((listed.applyDetail detail).2.applyChanges feeds).experiment? "e" = some view ∧
      (listed.applyDetail detail').2.experiment? "e" = some view' ∧
      view.transformations? = view'.transformations? ∧
      view'.transformations? = some detail'.transformations ∧
      view.tests? = view'.tests? ∧ view'.tests? = some detail'.tests ∧
      view'.analytics? = detail'.analytics.head? ∧
      view.analytics? = (pushedTo "e" .analytics feeds).getLast?.or view'.analytics? := by
  intro row before after feeds listed
  have hholds : Holds MemoryStore.empty (.ofFn fun _ => []) := ⟨rfl, rfl⟩
  have hwrites : CanMake MemoryStore (.ofFn fun _ => []) (before ++ after) := by
    refine ⟨⟨trivial, rfl, ?_⟩, ⟨trivial, rfl, ?_⟩, ⟨trivial, rfl, ?_⟩, ⟨trivial, trivial, ?_⟩,
      ⟨trivial, rfl, ?_⟩, trivial⟩ <;>
    · unfold Write.KeepsOwner
      decide
  have hlisted : listed.IsListed "e" := ⟨_, rfl, fun c => by cases c <;> rfl⟩
  have hfeeds : SameOrders feeds (after.map Write.feed) := by
    intro c
    cases c <;> rfl
  exact ⟨⟨hholds, hwrites, rfl, hlisted, hfeeds⟩,
    live_view_tracks_fresh_view hholds hwrites rfl hlisted hlisted hfeeds⟩

/-- A second row of analytics that is written after the detail was read is shown by the live view,
and the first one by the fresh view. -/
theorem analytics_of_live_view_differ :
    let row (id : String) : Document := [("experiment_id", .string "e"), ("id", .string id)]
    let before : List Write :=
      [.insert .experiments "" [("id", .string "e")], .insert .analytics "" (row "a1")]
    let after : List Write := [.insert .analytics "" (row "a2")]
    let listed := (Dashboard.empty.load [[("id", .string "e")]]).2
    CanMake MemoryStore (.ofFn fun _ => []) (before ++ after) ∧
    ∃ s₁ s₂ detail detail' view view',
      DocumentStore.writeAll MemoryStore.empty before = .ok s₁ ∧
      (Query.detail s₁ "e").1 = .ok (some detail) ∧
      DocumentStore.writeAll (Query.detail s₁ "e").2 after = .ok s₂ ∧
      (Query.detail s₂ "e").1 = .ok (some detail') ∧
      ((listed.applyDetail detail).2.applyChanges (after.map Write.feed)).experiment? "e" =
        some view ∧
      (listed.applyDetail detail').2.experiment? "e" = some view' ∧
      view.analytics? = some (row "a2") ∧ view'.analytics? = some (row "a1") ∧
      view.analytics? ≠ view'.analytics? := by
  intro row before after listed
  refine ⟨?_, _, _, _, _, _, _, rfl, rfl, rfl, rfl, rfl, rfl, rfl, rfl, ?_⟩
  · refine ⟨⟨trivial, rfl, ?_⟩, ⟨trivial, rfl, ?_⟩, ⟨trivial, rfl, ?_⟩, trivial⟩ <;>
    · unfold Write.KeepsOwner
      decide
  · change some (row "a2") ≠ some (row "a1")
    simp [row]

end Dashboard

end TrialBoard
