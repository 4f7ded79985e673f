import TrialBoard.Proofs.Extraction
import TrialBoard.Proofs.Outstanding
import TrialBoard.Proofs.Views
import TrialBoard.Proofs.WatchRun

/-!
# A client comes to show what the store holds

Of every collection that the client has subscribed to, certain rows are still to be applied, and the
last of them with an id is the row that the store holds. So what the client read of the store, at
whatever time, becomes what the store holds once these rows are pushed onto it: an older version
that is pushed again is replaced by the later ones that follow it. This is the invariant. A write
adds its row to what the store holds and to what is still to be applied, and a change that is
applied takes its row from there to what is shown.

The same is true of the rows that belong to an experiment, because no write takes a row from one
experiment to another. When nothing is left to be applied, what is shown is what the store holds.

`Tracks` is the part of this that speaks of the rows that were written, and `Consistent` adds that
these are the rows that the store holds. A table that keeps its bodies parts the two.
-/

namespace TrialBoard

open ExperimentView (upsertRow)
open Document (hasId)

namespace Watching

/-! ## The invariant -/

/-- Whether a row belongs to an experiment. -/
def belongsTo (id : String) (row : Document) : Bool := row.experiment? == some id

/-- The selections of the rows of a collection that a client shows: all experiments, and the rows of
another listed collection that belong to one. -/
inductive IsPart : Collection → (Document → Bool) → Prop
  | experiments : IsPart .experiments fun _ => true
  | children {c : Collection} (hc : IsListed c) (id : String) : IsPart c (belongsTo id)

theorem filter_experiments (rows : ByCollection (List Document)) :
    (rows.get .experiments).filter (fun _ => true) = rows.get .experiments :=
  List.filter_eq_self.2 fun _ _ => rfl

theorem IsListed.ne {c : Collection} (h : IsListed c) : c ≠ .experiments := by
  rcases h with rfl | rfl <;> decide

/-- A client shows rows of all collections but the analytics. -/
theorem isShown_iff {c : Collection} : (∃ p, IsPart c p) ↔ c ≠ .analytics := by
  constructor
  · rintro ⟨p, ⟨⟩ | ⟨rfl | rfl, -⟩⟩ <;> decide
  · intro hc
    cases c with
    | experiments => exact ⟨_, .experiments⟩
    | transformations => exact ⟨_, .children (.inl rfl) ""⟩
    | tests => exact ⟨_, .children (.inr rfl) ""⟩
    | analytics => exact absurd rfl hc

/-- Whether certain rows of a collection are still to be applied. Before the client has subscribed
there are none. -/
def Expects (w : Watching) (log : ChangeLog) (c : Collection) (pushed : List Document) : Prop :=
  match w.tails.get c with
  | some tail => tail.Awaits log c (w.store.tableName c) (w.inbox.get c) pushed
  | none => w.inbox.get c = [] ∧ pushed = []

/-- Whether shown rows of a part of a collection catch up with what the store holds. -/
def Follows (rows pushed : ByCollection (List Document)) (c : Collection) (p : Document → Bool)
    (shown : List Document) : Prop :=
  CatchesUp p shown (rows.get c) (pushed.get c)

/-- Whether the rows that are shown of an experiment catch up. -/
def ShowsDetail (rows pushed : ByCollection (List Document)) (d : Dashboard) (id : String) : Prop :=
  ∃ view, d.experiment? id = some view ∧
    ∀ c, IsListed c → ∃ shown, view.rows? c = some shown ∧
      Follows rows pushed c (belongsTo id) shown

/-- Whether an experiment is shown, and no rows that belong to it. -/
def ShowsOnly (d : Dashboard) (id : String) : Prop :=
  ∃ view, d.experiment? id = some view ∧ ∀ c, view.rows? c = none

/-- What is true of what the client has read, at each stage. -/
def Knows (rows pushed : ByCollection (List Document)) (d : Dashboard) : Stage → Prop
  | .subscribing _ => d = .empty
  | .listing => d = .empty
  | .fetching id =>
    Follows rows pushed .experiments (fun _ => true) d.experiments ∧ ShowsOnly d id
  | .gathering detail id left =>
    Follows rows pushed .experiments (fun _ => true) d.experiments ∧ ShowsOnly d id ∧
      detail.experiment.id? = some id ∧
      ∀ c, IsListed c → c ∉ left → Follows rows pushed c (belongsTo id) (detail.rowsOf c)
  | .following asked? =>
    Follows rows pushed .experiments (fun _ => true) d.experiments ∧
      ∀ id, asked? = some id → ShowsDetail rows pushed d id
  | .failed => False

/-- Whether certain rows are those that were written, certain rows are still to be applied, and what
the client has read catches up with what was written. -/
structure Tracks (w : Watching) (rows pushed : ByCollection (List Document)) : Prop where
  names : TableStore.HasDistinctTables w.store.names
  isOpen : w.store.blocked? = none
  expects : ∃ log, w.store.database.log? = some log ∧ ∀ c, w.Expects log c (pushed.get c)
  nodup : w.stage.unsubscribed.Nodup
  subscribed : ∀ c, w.tails.get c = none ↔ c ∈ w.stage.unsubscribed
  covered : ∀ c p, IsPart c p → Covered (rows.get c) (pushed.get c)
  agrees : ∀ c p, IsPart c p → Agrees p (rows.get c) (pushed.get c)
  knows : Knows rows pushed w.dashboard w.stage

/-- What every run keeps as long as no row is kept that was to be replaced: what was written is what
the store holds. -/
structure Consistent (w : Watching) (rows pushed : ByCollection (List Document)) : Prop extends
    Tracks w rows pushed where
  holds : w.store.Holds rows

variable {w : Watching} {rows rows' pushed pushed' : ByCollection (List Document)}
  {c : Collection} {p : Document → Bool} {id : String} {d : Dashboard}

/-- What the client has read goes on to catch up as long as each part of each collection does. -/
theorem Knows.mono {stage : Stage} (h : Knows rows pushed d stage)
    (hfollows : ∀ c p shown, IsPart c p → c ∉ stage.unsubscribed →
      Follows rows pushed c p shown → Follows rows' pushed' c p shown) :
    Knows rows' pushed' d stage := by
  have hexperiments : .experiments ∉ stage.unsubscribed →
      Follows rows pushed .experiments (fun _ => true) d.experiments →
      Follows rows' pushed' .experiments (fun _ => true) d.experiments :=
    hfollows _ _ _ .experiments
  cases stage with
  | subscribing left => exact h
  | listing => exact h
  | fetching id => exact ⟨hexperiments List.not_mem_nil h.1, h.2⟩
  | gathering detail id left =>
    obtain ⟨hshown, honly, hid, hread⟩ := h
    exact ⟨hexperiments List.not_mem_nil hshown, honly, hid, fun c hc hleft =>
      hfollows _ _ _ (.children hc id) List.not_mem_nil (hread c hc hleft)⟩
  | following asked? =>
    refine ⟨hexperiments List.not_mem_nil h.1, fun id hid => ?_⟩
    obtain ⟨view, hview, hrows⟩ := h.2 id hid
    refine ⟨view, hview, fun c hc => ?_⟩
    obtain ⟨shown, hshown, hcatches⟩ := hrows c hc
    exact ⟨shown, hshown, hfollows _ _ _ (.children hc id) List.not_mem_nil hcatches⟩
  | failed => exact h

/-- What is read of a part of a collection catches up. -/
theorem Consistent.follows (h : Consistent w rows pushed) (hpart : IsPart c p) :
    Follows rows pushed c p ((rows.get c).filter p) :=
  catchesUp_of_covered (h.holds.keyed c) (h.covered c p hpart) (h.agrees c p hpart)

theorem Tracks.knowsAt (h : Tracks w rows pushed) {stage : Stage}
    (hstage : w.stage = stage) : Knows rows pushed w.dashboard stage := hstage ▸ h.knows

/-! ## Writes -/

/-- Whether rows are others with the row of a write pushed onto those of its collection, as far as a
client shows them. -/
structure TakesIn (write : Write) (rows rows' : ByCollection (List Document)) : Prop where
  self : ∀ p, IsPart write.collection p →
    rows'.get write.collection = upsertRow write.row (rows.get write.collection)
  other : ∀ c, c ≠ write.collection → rows'.get c = rows.get c

theorem takesIn_set (write : Write) (rows : ByCollection (List Document)) :
    TakesIn write rows
      (rows.set write.collection (upsertRow write.row (rows.get write.collection))) :=
  ⟨fun _ _ => ByCollection.get_set_self _ _ _, fun _ hc => ByCollection.get_set_of_ne _ hc _⟩

/-- Whether all collections that a client shows let their rows be replaced. -/
def CanReplaceShown (names : CollectionNames) : Prop :=
  ∀ c, c ≠ .analytics → keepsBodies (names.get c) = false

/-- A store takes in what is written where the collections that are shown let their rows be
replaced. -/
theorem takesIn_rowsAfter {store : TableStore} (h : CanReplaceShown store.names) (write : Write)
    (rows : ByCollection (List Document)) : TakesIn write rows (store.rowsAfter rows write) := by
  refine ⟨fun p hpart => ?_, fun c hc => ByCollection.get_set_of_ne _ hc _⟩
  rw [TableStore.rowsAfter, ByCollection.get_set_self, TableStore.tableName,
    h _ (isShown_iff.1 ⟨p, hpart⟩), Write.onto_false]

/-- A write that is done and keeps to the rules leaves a row in the parts that it was in. -/
theorem part_of_write {store store' : TableStore} (hholds : store.Holds rows) {write : Write}
    (hwrite : store.write write = .ok store') (hkeeps : KeepsExperiment store write)
    (hpart : IsPart write.collection p) :
    ∀ r ∈ rows.get write.collection, r.id? = some write.id → p r = p write.row := by
  intro r hr hid
  cases write with
  | insert d fresh doc =>
    have hnone := TableStore.find?_eq_none_of_insert hholds hwrite
    exact absurd (Document.hasId_iff.2 hid) (List.find?_eq_none.1 hnone r hr)
  | upsert d id doc =>
    cases hpart with
    | experiments => rfl
    | children hlisted owner =>
      have hget : store.get d id = .ok (some r) :=
        (TableStore.get_of_holds hholds d id).trans
          (congrArg _ (find?_of_keyed (hholds.keyed d) hr hid))
      have hsame : (doc.withId id).experiment? = r.experiment? := hkeeps hlisted.ne r hget
      simp only [belongsTo, Write.row, hsame]

/-- The rows that are still to be applied after a write. -/
def awaited (w : Watching) (pushed : ByCollection (List Document)) (write : Write) :
    ByCollection (List Document) :=
  if (w.tails.get write.collection).isSome then
    pushed.set write.collection (pushed.get write.collection ++ [write.row])
  else pushed

theorem Tracks.pushed_of_none (h : Tracks w rows pushed) (hnone : w.tails.get c = none) :
    pushed.get c = [] := by
  obtain ⟨log, -, hexpects⟩ := h.expects
  have hc := hexpects c
  rw [Expects, hnone] at hc
  exact hc.2

/-- What a write does to what is still to be applied. -/
theorem Tracks.awaited_cases (h : Tracks w rows pushed) (write : Write) (c : Collection) :
    (c ≠ write.collection ∧ (w.awaited pushed write).get c = pushed.get c) ∨
    (c = write.collection ∧ w.tails.get c = none ∧ (w.awaited pushed write).get c = []) ∨
    (c = write.collection ∧ (∃ tail, w.tails.get c = some tail) ∧
      (w.awaited pushed write).get c = pushed.get c ++ [write.row]) := by
  unfold awaited
  by_cases hc : c = write.collection
  · subst hc
    cases htail : w.tails.get write.collection with
    | none => exact .inr (.inl ⟨rfl, rfl, h.pushed_of_none htail⟩)
    | some tail => exact .inr (.inr ⟨rfl, ⟨tail, rfl⟩, ByCollection.get_set_self _ _ _⟩)
  · refine .inl ⟨hc, ?_⟩
    split
    · exact ByCollection.get_set_of_ne _ hc _
    · rfl

theorem expects_write (h : Tracks w rows pushed) {write : Write} {store : TableStore}
    {log : ChangeLog} {old? : Option String} (hnames : store.names = w.store.names)
    (hold : TableStore.IsReadable write.collection old?) (hrow : write.row.ReadsBack)
    (hexpects : w.Expects log c (pushed.get c)) :
    Expects { w with store } (log.append (w.store.tableName write.collection) old?
      (some (Json.object write.row).render)) c ((w.awaited pushed write).get c) := by
  have htable : store.tableName c = w.store.tableName c := by
    rw [TableStore.tableName, TableStore.tableName, hnames]
  unfold Expects at hexpects ⊢
  simp only [htable]
  have hcases := h.awaited_cases write c
  cases htail : w.tails.get c with
  | none =>
    simp only [htail] at hexpects
    rcases hcases with ⟨-, hpushed⟩ | ⟨-, -, hpushed⟩ | ⟨-, ⟨tail, hsome⟩, -⟩
    · rw [hpushed]
      exact hexpects
    · exact ⟨hexpects.1, hpushed⟩
    · exact absurd (htail.symm.trans hsome) (Option.some_ne_none tail).symm
  | some tail =>
    simp only [htail] at hexpects
    rcases hcases with ⟨hne, hpushed⟩ | ⟨-, hnone, -⟩ | ⟨rfl, -, hpushed⟩
    · have hother : w.store.tableName write.collection ≠ w.store.tableName c := by
        intro heq
        refine hne (h.names c write.collection ?_)
        rw [Database.sameName_iff]
        exact congrArg String.toLower heq.symm
      have hnever : w.store.tableName write.collection = w.store.tableName c →
          TableStore.IsReadable c old? := fun heq => absurd heq hother
      have happend := hexpects.append (w.store.tableName write.collection) hnever hrow
      rwa [if_neg hother, List.append_nil, ← hpushed] at happend
    · exact absurd (htail.symm.trans hnone) (Option.some_ne_none tail)
    · have happend := hexpects.append (w.store.tableName write.collection) (fun _ => hold) hrow
      rwa [if_pos rfl, ← hpushed] at happend

/-- A write to a store that holds certain rows adds its row to those that were written, whatever the
store makes of it. -/
theorem tracks_write (h : Tracks w rows pushed) {held : ByCollection (List Document)}
    (hholds : w.store.Holds held) {write : Write} {store : TableStore}
    (hwrite : w.store.write write = .ok store) (hrow : write.row.ReadsBack)
    (htakes : TakesIn write rows rows') (hkeyed : Keyed (rows.get write.collection))
    (hsame : ∀ p, IsPart write.collection p →
      ∀ r ∈ rows.get write.collection, r.id? = some write.id → p r = p write.row) :
    Tracks { w with store } rows' (w.awaited pushed write) := by
  obtain ⟨log, hlog, hexpects⟩ := h.expects
  obtain ⟨-, hnames, hblocked, old?, hold, hlog'⟩ :=
    TableStore.holds_write h.names hholds hlog hrow hwrite
  have hid := write.id?_row
  refine ⟨hnames ▸ h.names, hblocked.trans h.isOpen,
    ⟨_, hlog', fun c => expects_write h hnames hold hrow (hexpects c)⟩, h.nodup, h.subscribed,
    fun c p hpart => ?_, fun c p hpart => ?_, h.knows.mono fun c p shown hpart hleft hshown => ?_⟩
  · rcases h.awaited_cases write c with ⟨hc, hpushed⟩ | ⟨-, -, hpushed⟩ | ⟨rfl, -, hpushed⟩
    · rw [htakes.other c hc, hpushed]
      exact h.covered c p hpart
    · rw [hpushed]
      exact covered_nil _
    · rw [htakes.self p hpart, hpushed]
      exact covered_write (h.covered _ p hpart) hid
  · rcases h.awaited_cases write c with ⟨hc, hpushed⟩ | ⟨-, -, hpushed⟩ | ⟨rfl, -, hpushed⟩
    · rw [htakes.other c hc, hpushed]
      exact h.agrees c p hpart
    · rw [hpushed]
      exact fun row hrow => absurd hrow List.not_mem_nil
    · rw [htakes.self p hpart, hpushed]
      exact agrees_write hkeyed (h.covered _ p hpart) (h.agrees _ p hpart) hid (hsame p hpart)
  · unfold Follows at hshown ⊢
    rcases h.awaited_cases write c with ⟨hc, hpushed⟩ | ⟨-, hnone, -⟩ | ⟨rfl, -, hpushed⟩
    · rw [htakes.other c hc, hpushed]
      exact hshown
    · exact absurd ((h.subscribed c).1 hnone) hleft
    · rw [htakes.self p hpart, hpushed]
      exact hshown.write hid (hsame p hpart)

theorem consistent_write (h : Consistent w rows pushed) {write : Write} {store : TableStore}
    (hwrite : w.store.write write = .ok store) (hrow : write.row.ReadsBack)
    (hkeeps : KeepsExperiment w.store write)
    (htakes : TakesIn write rows (w.store.rowsAfter rows write)) :
    Consistent { w with store } (w.store.rowsAfter rows write) (w.awaited pushed write) ∧
      store.names = w.store.names := by
  obtain ⟨log, hlog, -⟩ := h.expects
  obtain ⟨hholds, hnames, -⟩ := TableStore.holds_write h.names h.holds hlog hrow hwrite
  have htracks := tracks_write h.toTracks h.holds hwrite hrow htakes (h.holds.keyed _)
    fun p hpart => part_of_write h.holds hwrite hkeeps hpart
  exact ⟨⟨htracks, hholds⟩, hnames⟩

/-! ## Streams that are asked -/

/-- What is expected of the collections changes only for the one that a step is about. -/
theorem expects_update (c : Collection) {log : ChangeLog} {w' : Watching}
    (hexpects : ∀ d, w.Expects log d (pushed.get d)) (hnames : w'.store.names = w.store.names)
    (hself : w'.Expects log c (pushed'.get c))
    (hother : ∀ d, d ≠ c → w'.tails.get d = w.tails.get d ∧ w'.inbox.get d = w.inbox.get d ∧
      pushed'.get d = pushed.get d) : ∀ d, w'.Expects log d (pushed'.get d) := by
  intro d
  by_cases hd : d = c
  · exact hd ▸ hself
  · obtain ⟨htails, hinbox, hpushed⟩ := hother d hd
    have hd := hexpects d
    unfold Expects at hd ⊢
    rw [htails, hinbox, hpushed, TableStore.tableName, hnames]
    exact hd

theorem subscribed_update {tails : ByCollection (Option Tail)} {left : List Collection}
    (h : ∀ d, tails.get d = none ↔ d ∈ left) {tail tail' : Tail} (htail : tails.get c = some tail) :
    ∀ d, (tails.set c (some tail')).get d = none ↔ d ∈ left := by
  intro d
  by_cases hd : d = c
  · subst hd
    rw [ByCollection.get_set_self, ← h, htail]
    simp
  · rw [ByCollection.get_set_of_ne _ hd]
    exact h d

theorem Tracks.awaits (h : Tracks w rows pushed) {tail : Tail}
    (htail : w.tails.get c = some tail) : ∃ log, w.store.database.log? = some log ∧
      (∀ d, w.Expects log d (pushed.get d)) ∧
      tail.Awaits log c (w.store.tableName c) (w.inbox.get c) (pushed.get c) := by
  obtain ⟨log, hlog, hexpects⟩ := h.expects
  have hc := hexpects c
  rw [Expects, htail] at hc
  exact ⟨log, hlog, hexpects, hc⟩

theorem tracks_ask (h : Tracks w rows pushed) (c : Collection) :
    Tracks (w.ask c) rows pushed := by
  unfold ask
  cases htail : w.tails.get c with
  | none => exact h
  | some tail =>
    obtain ⟨log, hlog, hexpects, hawaits⟩ := h.awaits htail
    rcases hawaits.next hlog with ⟨tail', hnext, hawaits', -⟩ |
      ⟨event, tail', hnext, hevent, hawaits'⟩
    · have hnext : DocumentStore.next w.store tail = .pending tail' := hnext
      simp only [hnext]
      refine ⟨h.names, h.isOpen, ⟨log, hlog, expects_update c hexpects rfl ?_ fun d hd => ?_⟩,
        h.nodup, subscribed_update h.subscribed htail, h.covered, h.agrees, h.knows⟩
      · simp only [Expects, ByCollection.get_set_self]
        exact hawaits'
      · exact ⟨ByCollection.get_set_of_ne _ hd _, rfl, rfl⟩
    · have hnext : DocumentStore.next w.store tail = .item (.ok event) tail' := hnext
      simp only [hnext, hevent, Bool.false_eq_true, if_false]
      refine ⟨h.names, h.isOpen, ⟨log, hlog, expects_update c hexpects rfl ?_ fun d hd => ?_⟩,
        h.nodup, subscribed_update h.subscribed htail, h.covered, h.agrees, h.knows⟩
      · simp only [Expects, ByCollection.get_set_self]
        exact hawaits'
      · exact ⟨ByCollection.get_set_of_ne _ hd _, ByCollection.get_set_of_ne _ hd _, rfl⟩

/-- A step of the client leaves the rows that the store holds. -/
theorem Consistent.ofTracks (h : Consistent w rows pushed) {step : Step} (hown : step.IsOwn)
    (htracks : Tracks (w.step step) rows pushed') : Consistent (w.step step) rows pushed' :=
  ⟨htracks, store_of_isOwn hown w ▸ h.holds⟩

/-! ## Changes that are applied -/

section Applied

variable {row : Document} {rest : List Document}

theorem experiments_applied (hpushed : pushed.get c = row :: rest)
    (h : Follows rows pushed .experiments (fun _ => true) d.experiments) :
    Follows rows (pushed.set c rest) .experiments (fun _ => true)
      (d.applyChange (.ofRow c row)).2.experiments := by
  unfold Follows at h ⊢
  by_cases hc : c = .experiments
  · subst hc
    have happly : (d.applyChange (.ofRow .experiments row)).2 = d.pushExperiment row := rfl
    rw [happly, Dashboard.experiments_pushExperiment, ByCollection.get_set_self]
    rw [hpushed] at h
    exact h.apply
  · rw [ChangeFeed.ofRow, Dashboard.experiments_applyChange hc,
      ByCollection.get_set_of_ne _ (Ne.symm hc)]
    exact h

theorem showsDetail_applied (hpushed : pushed.get c = row :: rest)
    (h : ShowsDetail rows pushed d id) :
    ShowsDetail rows (pushed.set c rest) (d.applyChange (.ofRow c row)).2 id := by
  obtain ⟨view, hview, hrows⟩ := h
  by_cases hc : c = .experiments
  · subst hc
    have happly : (d.applyChange (.ofRow .experiments row)).2 = d.pushExperiment row := rfl
    obtain ⟨view', hview', hsame⟩ := Dashboard.rows?_pushExperiment row d hview
    refine ⟨view', happly ▸ hview', fun e he => ?_⟩
    obtain ⟨shown, hshown, hcatches⟩ := hrows e he
    refine ⟨shown, (hsame e).trans hshown, ?_⟩
    rw [Follows, ByCollection.get_set_of_ne _ he.ne]
    exact hcatches
  · obtain ⟨view', hview', hpush⟩ := Dashboard.rows?_applyChange hc row hview
    refine ⟨view', hview', fun e he => ?_⟩
    obtain ⟨shown, hshown, hcatches⟩ := hrows e he
    rw [hpush e he, hshown]
    unfold Follows at hcatches ⊢
    by_cases hsame : e = c
    · subst hsame
      rw [hpushed] at hcatches
      refine ⟨_, ?_, by rw [ByCollection.get_set_self]; exact hcatches.apply⟩
      by_cases howner : row.experiment? = some id
      · simp [belongsTo, howner]
      · simp [belongsTo, howner]
    · refine ⟨shown, if_neg fun h => hsame h.1, ?_⟩
      rw [ByCollection.get_set_of_ne _ hsame]
      exact hcatches

end Applied

/-- A change that is applied takes its row off what is still to be applied. -/
theorem tracks_apply_cons (h : Tracks w rows pushed) {asked? : Option String}
    (hstage : w.stage = .following asked?) {feed : ChangeFeed} {feeds : List ChangeFeed}
    (hinbox : w.inbox.get c = feed :: feeds) :
    ∃ row rest, pushed.get c = row :: rest ∧ Tracks (w.apply c) rows (pushed.set c rest) := by
  cases htail : w.tails.get c with
  | none =>
    obtain ⟨log, -, hexpects⟩ := h.expects
    have hc := hexpects c
    rw [Expects, htail, hinbox] at hc
    exact absurd hc.1 nofun
  | some tail =>
    obtain ⟨log, hlog, hexpects, hawaits⟩ := h.awaits htail
    rw [hinbox] at hawaits
    obtain ⟨row, rest, rfl, hpushed, hawaits'⟩ := hawaits.apply
    have hknows := h.knowsAt hstage
    have hcovered := h.covered c
    have hagrees := h.agrees c
    rw [hpushed] at hcovered hagrees
    unfold apply
    simp only [hstage, hinbox]
    refine ⟨row, rest, hpushed, h.names, h.isOpen,
      ⟨log, hlog, expects_update c hexpects rfl ?_ fun d hd => ?_⟩, by simp [Stage.unsubscribed],
      by simpa [hstage] using h.subscribed, fun d p hpart => ?_, fun d p hpart => ?_, ?_⟩
    · simp only [Expects, htail, ByCollection.get_set_self]
      exact hawaits'
    · exact ⟨rfl, ByCollection.get_set_of_ne _ hd _, ByCollection.get_set_of_ne _ hd _⟩
    · by_cases hd : d = c
      · subst hd
        rw [ByCollection.get_set_self]
        exact (hcovered p hpart).tail
      · rw [ByCollection.get_set_of_ne _ hd]
        exact h.covered d p hpart
    · by_cases hd : d = c
      · subst hd
        rw [ByCollection.get_set_self]
        exact (hagrees p hpart).tail
      · rw [ByCollection.get_set_of_ne _ hd]
        exact h.agrees d p hpart
    · exact ⟨experiments_applied hpushed hknows.1,
        fun id hid => showsDetail_applied hpushed (hknows.2 id hid)⟩

theorem tracks_apply (h : Tracks w rows pushed) (c : Collection) :
    ∃ pushed', Tracks (w.apply c) rows pushed' := by
  cases hinbox : w.inbox.get c with
  | nil => exact ⟨pushed, by simpa [apply, hinbox] using h⟩
  | cons feed feeds =>
    cases hstage : w.stage with
    | following asked? =>
      obtain ⟨-, rest, -, h'⟩ := tracks_apply_cons h hstage hinbox
      exact ⟨_, h'⟩
    | subscribing | listing | fetching | gathering | failed =>
      exact ⟨pushed, by simpa [apply, hstage] using h⟩

/-! ## Steps of the client -/

/-- A client that has subscribed may go on to any stage of which it knows what is true there. -/
theorem Consistent.atStage (h : Consistent w rows pushed) (hsubscribed : w.stage.unsubscribed = [])
    {stage : Stage} (hstage : stage.unsubscribed = []) (hknows : Knows rows pushed d stage) :
    Consistent { w with dashboard := d, stage } rows pushed :=
  ⟨⟨h.names, h.isOpen, h.expects, by simp [hstage], by simpa [hstage, hsubscribed] using
    h.subscribed, h.covered, h.agrees, hknows⟩, h.holds⟩

theorem consistent_subscribe (h : Consistent w rows pushed) {left : List Collection}
    (hstage : w.stage = .subscribing (c :: left)) :
    Consistent (w.subscribe c left) rows pushed := by
  obtain ⟨log, hlog, hexpects⟩ := h.expects
  have hnodup := h.nodup
  have hsubscribed := h.subscribed
  rw [hstage] at hnodup hsubscribed
  obtain ⟨hfresh, hleft⟩ := List.nodup_cons.1 hnodup
  have hnone : w.tails.get c = none := (hsubscribed c).2 List.mem_cons_self
  have hempty := hexpects c
  rw [Expects, hnone] at hempty
  have hdashboard : w.dashboard = .empty := h.knowsAt hstage
  have hsubscribe : DocumentStore.subscribe w.store c =
      .ok ({ collection := c, table := w.store.tableName c,
             cursor := log.lastOf (w.store.tableName c) }, w.store) := by
    change w.store.subscribe c = _
    simp [TableStore.subscribe, Database.log, hlog]
  unfold subscribe
  simp only [hsubscribe]
  refine ⟨⟨h.names, h.isOpen, ⟨log, hlog, expects_update c hexpects rfl ?_ fun d hd => ?_⟩, hleft,
    fun d => ?_, h.covered, h.agrees, hdashboard⟩, h.holds⟩
  · simp only [Expects, ByCollection.get_set_self, hempty]
    exact Tail.awaits_subscribe log c _
  · exact ⟨ByCollection.get_set_of_ne _ hd _, rfl, rfl⟩
  · by_cases hd : d = c
    · subst hd
      simp [Stage.unsubscribed, hfresh]
    · rw [ByCollection.get_set_of_ne _ hd, hsubscribed]
      simp [Stage.unsubscribed, hd]

theorem Consistent.list_eq (h : Consistent w rows pushed) :
    (Query.list w.store).1 = .ok (rows.get .experiments) := by
  have hscan : DocumentStore.scan w.store .experiments = .ok (rows.get .experiments) :=
    TableStore.scan_of_holds h.holds .experiments
  rw [Query.list, TableStore.inSession_of_open h.isOpen, hscan]
  rfl

theorem consistent_list (h : Consistent w rows pushed) (hstage : w.stage = .listing) :
    Consistent w.list rows pushed := by
  have hlist := h.list_eq
  have hnone : w.stage.unsubscribed = [] := by rw [hstage]; rfl
  have hempty : w.dashboard = .empty := h.knowsAt hstage
  have hshown : Follows rows pushed .experiments (fun _ => true)
      (Dashboard.empty.load (rows.get .experiments)).2.experiments := by
    have hfollows := h.follows .experiments
    rw [Dashboard.experiments_load]
    rwa [filter_experiments] at hfollows
  unfold list
  simp only [hlist, hempty]
  cases hasked : (Dashboard.empty.load (rows.get .experiments)).1 with
  | none => exact h.atStage hnone rfl ⟨hshown, nofun⟩
  | some id => exact h.atStage hnone rfl ⟨hshown, Dashboard.experiment?_load hasked⟩

/-- An experiment that is shown is held by the store. -/
theorem find?_of_showsOnly (h : w.store.Holds rows)
    (hshown : Follows rows pushed .experiments (fun _ => true) d.experiments)
    (honly : ShowsOnly d id) : ∃ row, (rows.get .experiments).find? (hasId id) = some row ∧
      row.id? = some id := by
  obtain ⟨view, hview, -⟩ := honly
  have hfind := d.find?_experiments id
  rw [hview, Option.map_some] at hfind
  have hany : (rows.get .experiments).any (hasId id) = true := by
    rw [← filter_experiments rows, ← hshown, any_hasId_upsertAll, Bool.or_eq_true]
    exact .inl (List.any_eq_true.2 ⟨_, List.mem_of_find?_eq_some hfind, List.find?_some hfind⟩)
  obtain ⟨row, hrow, hid⟩ := List.any_eq_true.1 hany
  exact ⟨row, find?_of_keyed (h.keyed _) hrow (Document.hasId_iff.1 hid), Document.hasId_iff.1 hid⟩

theorem consistent_fetch (h : Consistent w rows pushed) (hstage : w.stage = .fetching id) :
    Consistent (w.fetch id) rows pushed := by
  have hnone : w.stage.unsubscribed = [] := by rw [hstage]; rfl
  obtain ⟨hshown, honly⟩ := h.knowsAt hstage
  obtain ⟨row, hfind, hid⟩ := find?_of_showsOnly h.holds hshown honly
  have hget : DocumentStore.get w.store .experiments id = .ok (some row) := by
    rw [← hfind]
    exact TableStore.get_of_holds h.holds .experiments id
  unfold fetch
  rw [TableStore.inSession_of_open h.isOpen, hget]
  simp only [Except.mapError]
  refine h.atStage hnone rfl ⟨hshown, honly, hid, fun c hc hleft => absurd ?_ hleft⟩
  rcases hc with rfl | rfl <;> simp

theorem rowsOf_gathered_self (hc : IsListed c) (detail : Detail) (docs : List Document) :
    (gathered detail c docs).rowsOf c = docs := by
  rcases hc with rfl | rfl <;> rfl

theorem rowsOf_gathered_of_ne {e : Collection} (h : e ≠ c) (detail : Detail)
    (docs : List Document) : (gathered detail c docs).rowsOf e = detail.rowsOf e := by
  cases c <;> cases e <;> first | rfl | exact absurd rfl h

theorem experiment_gathered (detail : Detail) (c : Collection) (docs : List Document) :
    (gathered detail c docs).experiment = detail.experiment := by
  cases c <;> rfl

theorem consistent_gather (h : Consistent w rows pushed) {detail : Detail}
    {left : List Collection} (hstage : w.stage = .gathering detail id (c :: left)) :
    Consistent (w.gather detail id c left) rows pushed := by
  have hnone : w.stage.unsubscribed = [] := by rw [hstage]; rfl
  obtain ⟨hshown, honly, hid, hread⟩ := h.knowsAt hstage
  have hfilter : DocumentStore.filterEq w.store c Document.experimentKey (.string id) =
      .ok ((rows.get c).filter (belongsTo id)) :=
    TableStore.filterEq_of_holds h.holds Extract.isPlain_experimentKey c id
  unfold gather
  simp only [hfilter]
  refine h.atStage hnone rfl ⟨hshown, honly, by rwa [experiment_gathered], fun e he hleft => ?_⟩
  by_cases hsame : e = c
  · subst hsame
    rw [rowsOf_gathered_self he]
    exact h.follows (.children he id)
  · rw [rowsOf_gathered_of_ne hsame]
    exact hread e he (by simp [hsame, hleft])

theorem consistent_applyDetail (h : Consistent w rows pushed) {detail : Detail}
    (hstage : w.stage = .gathering detail id []) :
    Consistent { w with dashboard := (w.dashboard.applyDetail detail).2,
                        stage := .following (some id) } rows pushed := by
  have hnone : w.stage.unsubscribed = [] := by rw [hstage]; rfl
  obtain ⟨hshown, ⟨view, hview, hblank⟩, hid, hread⟩ := h.knowsAt hstage
  have happly : w.dashboard.applyDetail detail = w.dashboard.modify id (·.fillIn detail) := by
    rw [Dashboard.applyDetail, hid]
  refine h.atStage hnone rfl ⟨?_, fun id' hid' => ?_⟩
  · rw [happly, Dashboard.experiments_modify (Dashboard.experiment_fillIn detail)]
    exact hshown
  · obtain rfl := Option.some.inj hid'
    refine ⟨view.fillIn detail, ?_, fun c hc => ⟨detail.rowsOf c, ?_, hread c hc List.not_mem_nil⟩⟩
    · rw [happly, Dashboard.experiment?_modify (Dashboard.id?_fillIn detail), hview]
      rfl
    · rw [Dashboard.rows?_fillIn hc, hblank]
      rfl

theorem consistent_proceed (h : Consistent w rows pushed) :
    Consistent w.proceed rows pushed := by
  unfold proceed
  cases hstage : w.stage with
  | subscribing left =>
    cases left with
    | nil =>
      have hdashboard : w.dashboard = .empty := h.knowsAt hstage
      exact h.atStage (by rw [hstage]; rfl) rfl hdashboard
    | cons c left => exact consistent_subscribe h hstage
  | listing => exact consistent_list h hstage
  | fetching id => exact consistent_fetch h hstage
  | gathering detail id left =>
    cases left with
    | nil => exact consistent_applyDetail h hstage
    | cons c left => exact consistent_gather h hstage
  | following asked? => exact h
  | failed => exact h

/-! ## Runs -/

theorem step_write {write : Write} {store : TableStore} (h : w.store.write write = .ok store) :
    w.step (.write write) = { w with store } := by
  rw [Watching.step, h]

theorem exists_consistent_run {steps : List Step} (h : Consistent w rows pushed)
    (hreplace : CanReplaceShown w.store.names) (hallows : w.Allows steps) :
    ∃ rows pushed, Consistent (w.run steps) rows pushed := by
  induction steps generalizing w rows pushed with
  | nil => exact ⟨rows, pushed, h⟩
  | cons step steps ih =>
    rw [run_cons]
    cases step with
    | write write =>
      obtain ⟨hrow, hkeeps, hallows⟩ := hallows
      cases hwrite : w.store.write write with
      | ok store =>
        rw [step_write hwrite] at hallows ⊢
        obtain ⟨hnext, hnames⟩ := consistent_write h hwrite hrow hkeeps
          (takesIn_rowsAfter hreplace write rows)
        exact ih hnext (hnames ▸ hreplace) hallows
      | error e =>
        have hstep : w.step (.write write) = w := by rw [Watching.step, hwrite]
        rw [hstep] at hallows ⊢
        exact ih h hreplace hallows
    | ask c =>
      have hown : (Step.ask c).IsOwn := trivial
      exact ih (h.ofTracks hown (tracks_ask h.toTracks c)) (store_of_isOwn hown w ▸ hreplace)
        hallows
    | proceed =>
      have hown : Step.proceed.IsOwn := trivial
      exact ih (consistent_proceed h) (store_of_isOwn hown w ▸ hreplace) hallows
    | apply c =>
      have hown : (Step.apply c).IsOwn := trivial
      obtain ⟨pushed', h'⟩ := tracks_apply h.toTracks c
      exact ih (h.ofTracks hown h') (store_of_isOwn hown w ▸ hreplace) hallows

theorem consistent_start {s store : TableStore} (hnames : TableStore.HasDistinctTables s.names)
    (hempty : s.database = .empty) (hprepare : DocumentStore.prepare s = (.ok (), store)) :
    Consistent { store } (.ofFn fun _ => []) (.ofFn fun _ => []) := by
  obtain ⟨hholds, hsame, hopen, log, hlog⟩ := TableStore.holds_prepared hnames hempty hprepare
  have hall : Collection.all.Nodup := by decide
  refine ⟨⟨hsame ▸ hnames, hopen, ⟨log, hlog, fun c => ?_⟩, hall, fun c => ?_, fun c p _ => ?_,
    fun c p _ => ?_, rfl⟩, hholds⟩
  · cases c <;> exact ⟨rfl, rfl⟩
  · have hnone : (ByCollection.ofFn fun _ => (none : Option Tail)).get c = none :=
      ByCollection.get_ofFn _ c
    exact iff_of_true hnone (Collection.mem_all c)
  · rw [ByCollection.get_ofFn]
    exact covered_nil _
  · rw [ByCollection.get_ofFn]
    exact fun row hrow => absurd hrow List.not_mem_nil

theorem Tracks.pushed_of_isCaughtUp (h : Tracks w rows pushed) (hcaught : w.IsCaughtUp)
    (c : Collection) : pushed.get c = [] := by
  cases htail : w.tails.get c with
  | none => exact h.pushed_of_none htail
  | some tail =>
    obtain ⟨log, hlog, -, hawaits⟩ := h.awaits htail
    obtain ⟨tail', hpending⟩ := hcaught.streams c tail htail
    rcases hawaits.next hlog with ⟨-, -, -, hnil⟩ | ⟨event, tail'', hnext, -⟩
    · exact hnil (hcaught.inbox c)
    · exact absurd (hpending.symm.trans hnext) nofun

/-- What is shown is what was written, when nothing is left to be applied. -/
theorem Tracks.eq_of_isCaughtUp (h : Tracks w rows pushed) (hcaught : w.IsCaughtUp)
    {shown : List Document} (hshown : Follows rows pushed c p shown) :
    shown = (rows.get c).filter p := by
  rw [Follows, h.pushed_of_isCaughtUp hcaught] at hshown
  exact hshown.eq

/-! ## Catching up -/

/-- How many steps a client is away from following the changes, at most. -/
def stepsLeft : Stage → Nat
  | .subscribing left => left.length + 7
  | .listing => 6
  | .fetching _ => 5
  | .gathering _ _ left => left.length + 1
  | .following _ => 0
  | .failed => 0

theorem stepsLeft_proceed (w : Watching) :
    stepsLeft w.stage = 0 ∨ stepsLeft w.proceed.stage < stepsLeft w.stage := by
  unfold proceed
  cases w.stage with
  | following asked? => exact .inl rfl
  | failed => exact .inl rfl
  | subscribing left =>
    refine .inr ?_
    cases left with
    | nil => simp [stepsLeft]
    | cons c left =>
      dsimp only [subscribe]
      split <;> simp [stepsLeft]
  | listing =>
    refine .inr ?_
    dsimp only [list]
    split
    · split <;> simp [stepsLeft]
    · simp [stepsLeft]
  | fetching id =>
    refine .inr ?_
    dsimp only [fetch]
    split <;> simp [stepsLeft]
  | gathering detail id left =>
    refine .inr ?_
    cases left with
    | nil => simp [stepsLeft]
    | cons c left =>
      dsimp only [gather]
      split <;> simp [stepsLeft]

/-- A client that goes on gets to follow the changes. -/
theorem exists_run_following (h : Consistent w rows pushed) :
    ∃ n asked?, (w.run (List.replicate n .proceed)).stage = .following asked? ∧
      Consistent (w.run (List.replicate n .proceed)) rows pushed := by
  induction hn : stepsLeft w.stage using Nat.strongRecOn generalizing w with
  | ind n ih =>
    subst hn
    rcases w.stepsLeft_proceed with hzero | hlt
    · cases hstage : w.stage with
      | following asked? => exact ⟨0, asked?, hstage, h⟩
      | failed => exact (h.knowsAt hstage).elim
      | subscribing | listing | fetching | gathering => simp [hstage, stepsLeft] at hzero
    · obtain ⟨n, asked?, hstage, h'⟩ := ih _ hlt (consistent_proceed h) rfl
      exact ⟨n + 1, asked?, hstage, h'⟩

/-- How many rows are still to be applied. -/
def outstanding (pushed : ByCollection (List Document)) : Nat :=
  (pushed.toList.map List.length).sum

theorem outstanding_set {row : Document} {rest : List Document}
    (h : pushed.get c = row :: rest) :
    outstanding (pushed.set c rest) + 1 = outstanding pushed := by
  cases c <;> simp only [ByCollection.get] at h <;>
    simp only [outstanding, ByCollection.set, ByCollection.toList, h, List.map_cons, List.map_nil,
      List.length_cons, List.sum_cons, List.sum_nil] <;> omega

/-- Asking for a collection of which rows are still to be applied brings a change to apply. -/
theorem Tracks.inbox_ask (h : Tracks w rows pushed) (hpushed : pushed.get c ≠ []) :
    (w.ask c).inbox.get c ≠ [] := by
  unfold ask
  cases htail : w.tails.get c with
  | none => exact absurd (h.pushed_of_none htail) hpushed
  | some tail =>
    obtain ⟨log, hlog, -, hawaits⟩ := h.awaits htail
    rcases hawaits.next hlog with ⟨tail', hnext, -, hnil⟩ | ⟨event, tail', hnext, hevent, -⟩
    · have hnext : DocumentStore.next w.store tail = .pending tail' := hnext
      simp only [hnext]
      exact fun hempty => hpushed (hnil hempty)
    · have hnext : DocumentStore.next w.store tail = .item (.ok event) tail' := hnext
      simp [hnext, hevent]

/-- When nothing is left to be applied, no change waits and no stream has one. -/
theorem Tracks.isCaughtUp (h : Tracks w rows pushed) (hnil : ∀ c, pushed.get c = []) :
    w.IsCaughtUp := by
  have hinbox : ∀ c, w.inbox.get c = [] := by
    intro c
    cases htail : w.tails.get c with
    | none =>
      obtain ⟨log, -, hexpects⟩ := h.expects
      have hc := hexpects c
      rw [Expects, htail] at hc
      exact hc.1
    | some tail =>
      obtain ⟨log, -, -, hawaits⟩ := h.awaits htail
      obtain ⟨early, late, hparts, hinbox, -⟩ := hawaits.parts
      rw [hnil c, eq_comm, List.append_eq_nil_iff] at hparts
      rw [hinbox, hparts.1]
      rfl
  refine ⟨hinbox, fun c tail htail => ?_⟩
  obtain ⟨log, hlog, -, hawaits⟩ := h.awaits htail
  rcases hawaits.next hlog with ⟨tail', hnext, -, -⟩ | ⟨event, tail', -, -, hawaits'⟩
  · exact ⟨tail', hnext⟩
  · obtain ⟨early, late, hparts, hinbox', -⟩ := hawaits'.parts
    rw [hnil c, eq_comm, List.append_eq_nil_iff] at hparts
    rw [hparts.1] at hinbox'
    exact absurd hinbox' (by simp)

/-- A client that follows the changes, and that is left to itself, applies all there are. -/
theorem exists_run_isCaughtUp (h : Consistent w rows pushed) {asked? : Option String}
    (hstage : w.stage = .following asked?) : ∃ steps : List Step, (∀ step ∈ steps, step.IsOwn) ∧
      (w.run steps).stage = .following asked? ∧ (w.run steps).IsCaughtUp ∧
      ∃ pushed, Consistent (w.run steps) rows pushed := by
  induction hn : outstanding pushed using Nat.strongRecOn generalizing w pushed with
  | ind n ih =>
    subst hn
    by_cases hnil : ∀ c, pushed.get c = []
    · exact ⟨[], by simp, hstage, h.isCaughtUp hnil, pushed, h⟩
    · obtain ⟨c, hc⟩ := Classical.not_forall.1 hnil
      have hask : (Step.ask c).IsOwn := trivial
      have happly : (Step.apply c).IsOwn := trivial
      have hasked : Consistent (w.ask c) rows pushed := h.ofTracks hask (tracks_ask h.toTracks c)
      obtain ⟨feed, feeds, hinbox⟩ := List.exists_cons_of_ne_nil (h.inbox_ask hc)
      have hstage' : (w.ask c).stage = .following asked? := (w.stage_ask c).trans hstage
      obtain ⟨row, rest, hrest, htracks⟩ := tracks_apply_cons hasked.toTracks hstage' hinbox
      have hless := outstanding_set hrest
      obtain ⟨steps, hown, hfollowing, hcaught, hlast⟩ :=
        ih _ (by omega) (hasked.ofTracks happly htracks)
          (((w.ask c).stage_apply c).trans hstage') rfl
      refine ⟨.ask c :: .apply c :: steps, ?_, hfollowing, hcaught, hlast⟩
      exact List.forall_mem_cons.2 ⟨hask, List.forall_mem_cons.2 ⟨happly, hown⟩⟩

theorem Consistent.showsStore (h : Consistent w rows pushed) (hcaught : w.IsCaughtUp)
    {asked? : Option String} (hstage : w.stage = .following asked?) : w.ShowsStore asked? := by
  obtain ⟨hshown, hdetail⟩ := h.knowsAt hstage
  have heq : w.dashboard.views.map (·.experiment) = rows.get .experiments :=
    (h.eq_of_isCaughtUp hcaught hshown).trans (filter_experiments rows)
  have hids : w.dashboard.views.map (·.id?) = (rows.get .experiments).map Document.id? := by
    rw [← heq, List.map_map]
    rfl
  refine ⟨?_, hids ▸ (h.holds.keyed .experiments).nodup, fun id hid => ?_⟩
  · rw [heq]
    exact TableStore.scan_of_holds h.holds .experiments
  · obtain ⟨view, hview, hrows⟩ := hdetail id hid
    refine ⟨view, hview, fun c hc => ?_⟩
    obtain ⟨shown, hrows, hcatches⟩ := hrows c hc
    obtain rfl := h.eq_of_isCaughtUp hcaught hcatches
    exact ⟨_, hrows, TableStore.filterEq_of_holds h.holds Extract.isPlain_experimentKey c id,
      ((h.holds.keyed c).filter _).nodup⟩

/-- Where what was written is what the store holds, a client comes to show it. -/
theorem Consistent.converges (h : Consistent w rows pushed) : w.Converges := by
  refine ⟨fun hfailed => h.knowsAt hfailed, fun c hc => ?_,
    fun asked? hstage hcaught => h.showsStore hcaught hstage, ?_⟩
  · rw [Option.isSome_iff_ne_none]
    exact fun hnone => hc ((h.subscribed c).1 hnone)
  · obtain ⟨n, asked?, hstage, hfollows⟩ := exists_run_following h
    obtain ⟨own, hown, hfollowing, hcaught, pushed', hlast⟩ := exists_run_isCaughtUp hfollows hstage
    have hall : ∀ step ∈ List.replicate n Step.proceed ++ own, step.IsOwn :=
      List.forall_mem_append.2 ⟨isOwn_replicate_proceed n, hown⟩
    refine ⟨List.replicate n .proceed ++ own, asked?, hall, store_run_of_isOwn hall w, ?_⟩
    rw [run_append]
    exact ⟨hfollowing, hcaught, hlast.showsStore hcaught hfollowing⟩

end Watching

end TrialBoard
