import TrialBoard.Proofs.WatchConvergence

/-!
# What a client comes to, by the names of the tables

Whatever is written, a client comes to show what the store holds, as long as the collections that it
shows have tables that let rows be replaced. That is also needed. In a table that keeps its bodies, a
row of the experiment that the client asked for is written twice. The store goes on holding the row
as it was written first, and the client is told of the second one and shows it, without end.
-/

namespace TrialBoard

open ExperimentView (upsertRow)
open Document (hasId)

namespace Watching

variable {w : Watching} {rows held pushed : ByCollection (List Document)} {c : Collection}
  {id : String}

/-! ## The experiment that is asked for -/

/-- Whether the experiment of which a client asks for the detail, or has asked, is a certain one. -/
def Seeks (id : String) : Stage → Prop
  | .fetching other => other = id
  | .gathering _ other _ => other = id
  | .following asked? => asked? = some id
  | _ => True

theorem seeks_proceed (h : Consistent w rows pushed)
    (hload : (Dashboard.empty.load (rows.get .experiments)).1 = some id)
    (hseeks : Seeks id w.stage) : Seeks id w.proceed.stage := by
  unfold proceed
  cases hstage : w.stage with
  | subscribing left =>
    cases left with
    | nil => trivial
    | cons c left =>
      dsimp only [subscribe]
      split <;> trivial
  | listing =>
    have hempty : w.dashboard = .empty := h.knowsAt hstage
    dsimp only [list]
    rw [h.list_eq, hempty]
    dsimp only
    rw [hload]
    rfl
  | fetching other =>
    rw [hstage] at hseeks
    dsimp only [fetch]
    split
    · exact hseeks
    · exact congrArg some hseeks
    · trivial
  | gathering detail other left =>
    rw [hstage] at hseeks
    cases left with
    | nil => exact congrArg some hseeks
    | cons c left =>
      dsimp only [gather]
      split
      · exact hseeks
      · trivial
  | following asked? => exact hseeks
  | failed => trivial

theorem seeks_run (h : Consistent w rows pushed)
    (hload : (Dashboard.empty.load (rows.get .experiments)).1 = some id)
    (hseeks : Seeks id w.stage) (n : Nat) :
    Seeks id (w.run (List.replicate n .proceed)).stage := by
  induction n generalizing w with
  | zero => exact hseeks
  | succ n ih => exact ih (consistent_proceed h) (seeks_proceed h hload hseeks)

/-! ## A row that is kept -/

/-- A client that follows the changes goes on to track what was written, as long as it is left to
itself. -/
theorem tracks_run_of_isOwn (h : Tracks w rows pushed) {asked? : Option String}
    (hstage : w.stage = .following asked?) {own : List Step} (hown : ∀ step ∈ own, step.IsOwn) :
    (w.run own).stage = .following asked? ∧ ∃ pushed, Tracks (w.run own) rows pushed := by
  induction own generalizing w pushed with
  | nil => exact ⟨hstage, pushed, h⟩
  | cons step own ih =>
    obtain ⟨hstep, hlater⟩ := List.forall_mem_cons.1 hown
    rw [run_cons]
    cases step with
    | write write => exact hstep.elim
    | ask c => exact ih (tracks_ask h c) ((w.stage_ask c).trans hstage) hlater
    | proceed =>
      have hsame : w.step .proceed = w := by rw [Watching.step, proceed, hstage]
      rw [hsame]
      exact ih h hstage hlater
    | apply c =>
      obtain ⟨pushed', h'⟩ := tracks_apply h c
      exact ih h' ((w.stage_apply c).trans hstage) hlater

/-- A client that has applied all there are shows what was written. If it shows the store, too, then
what was written is what the store holds. -/
theorem filter_eq_of_showsStore (h : Tracks w rows pushed) (hheld : w.store.Holds held)
    (hstage : w.stage = .following (some id)) (hcaught : w.IsCaughtUp)
    (hshows : w.ShowsStore (some id)) (hc : c ≠ .analytics) :
    (rows.get c).filter (belongsTo id) = (held.get c).filter (belongsTo id) := by
  obtain ⟨hshown, hdetail⟩ := h.knowsAt hstage
  by_cases hexperiments : c = .experiments
  · subst hexperiments
    have hrows : w.dashboard.views.map (·.experiment) = rows.get .experiments :=
      (h.eq_of_isCaughtUp hcaught hshown).trans (filter_experiments rows)
    have hscan := hshows.experiments
    rw [TableStore.scan_of_holds hheld, hrows] at hscan
    rw [Except.ok.inj hscan]
  · have hlisted : IsListed c := by
      cases c with
      | experiments => exact absurd rfl hexperiments
      | transformations => exact .inl rfl
      | tests => exact .inr rfl
      | analytics => exact absurd rfl hc
    obtain ⟨view, hview, hrows⟩ := hdetail id rfl
    obtain ⟨shown, hshown, hcatches⟩ := hrows c hlisted
    obtain ⟨view', hview', hrows'⟩ := hshows.detail id rfl
    obtain rfl := Option.some.inj (hview.symm.trans hview')
    obtain ⟨shown', hshown', hfilter, -⟩ := hrows' c hlisted
    obtain rfl := Option.some.inj (hshown.symm.trans hshown')
    rw [TableStore.filterEq_of_holds hheld Extract.isPlain_experimentKey c id] at hfilter
    rw [← h.eq_of_isCaughtUp hcaught hcatches]
    exact (Except.ok.inj hfilter).symm

/-- A client that follows the changes does not come to show the store, if another row was written
than the store holds, of the experiment that it shows. -/
theorem not_converges_of_kept (h : Tracks w rows pushed) (hheld : w.store.Holds held)
    (hstage : w.stage = .following (some id)) (hc : c ≠ .analytics) {child : String}
    {written kept : Document} (hwritten : (rows.get c).find? (hasId child) = some written)
    (hkept : (held.get c).find? (hasId child) = some kept)
    (howner : belongsTo id written = true) (howner' : belongsTo id kept = true)
    (hne : kept ≠ written) : ¬ w.Converges := by
  intro hconverges
  obtain ⟨own, asked?, hown, hstore, hfollowing, hcaught, hshows⟩ := hconverges.catchesUp
  obtain ⟨hsame, pushed', hlast⟩ := tracks_run_of_isOwn h hstage hown
  obtain rfl : asked? = some id := by
    rw [hsame, Stage.following.injEq] at hfollowing
    exact hfollowing.symm
  have hrows := filter_eq_of_showsStore hlast (hstore.symm ▸ hheld) hfollowing hcaught hshows hc
  have hfind := find?_filter_of_find? hwritten howner
  rw [hrows, find?_filter_of_find? hkept howner'] at hfind
  exact hne (Option.some.inj hfind)

/-! ## A run that leads astray -/

theorem Consistent.isReady (h : Consistent w rows pushed) : w.store.IsReady rows := by
  obtain ⟨log, hlog, -⟩ := h.expects
  exact ⟨h.holds, h.names, h.isOpen, log, hlog⟩

/-- A row of an experiment. -/
def plainRow : Document := [("experiment_id", .string "e"), ("id", .string "x")]

/-- The row with a name. -/
def namedRow : Document :=
  [("experiment_id", .string "e"), ("id", .string "x"), ("name", .string "n")]

theorem withId_plainRow : plainRow.withId "x" = plainRow := by cbv

theorem withId_namedRow : namedRow.withId "x" = namedRow := by cbv

theorem plainRow_ne_namedRow : plainRow ≠ namedRow := by simp [plainRow, namedRow]

theorem readsBack_plainRow : plainRow.ReadsBack := by
  unfold Document.ReadsBack
  cbv

theorem readsBack_namedRow : namedRow.ReadsBack := by
  unfold Document.ReadsBack
  cbv

/-- The row is written where there is none of its id. -/
theorem exists_write_plainRow (h : Consistent w rows pushed)
    (hfree : (rows.get c).find? (hasId "x") = none) :
    let write : Write := .upsert c "x" plainRow
    ∃ store rows₁ pushed₁, w.store.write write = .ok store ∧ KeepsExperiment w.store write ∧
      Consistent { w with store } rows₁ pushed₁ ∧ store.names = w.store.names ∧
      (rows₁.get c).find? (hasId "x") = some plainRow := by
  intro write
  have hrow : write.row = plainRow := withId_plainRow
  obtain ⟨store, hwrite⟩ := h.isReady.exists_write (w := write) trivial
  have hnone : w.store.get c "x" = .ok none :=
    (TableStore.get_of_holds h.holds c "x").trans (congrArg _ hfree)
  have hkeeps : KeepsExperiment w.store write := fun _ old hold =>
    absurd (hnone.symm.trans hold) nofun
  have hadded : w.store.rowsAfter rows write = rows.set c (upsertRow write.row (rows.get c)) :=
    TableStore.rowsAfter_of_free (w := write) hfree
  obtain ⟨hnext, hnames⟩ := consistent_write h hwrite (hrow ▸ readsBack_plainRow) hkeeps
    (hadded ▸ takesIn_set write rows)
  refine ⟨store, _, _, hwrite, hkeeps, hnext, hnames, ?_⟩
  rw [hadded, ByCollection.get_set_self, hrow]
  exact find?_upsertRow_self (hrow ▸ write.id?_row) _

/-- The row is written again, with a name, in a table that keeps its bodies. -/
theorem exists_write_namedRow (h : Consistent w rows pushed)
    (hkeeps : keepsBodies (w.store.names.get c) = true)
    (hheld : (rows.get c).find? (hasId "x") = some plainRow) :
    let write : Write := .upsert c "x" namedRow
    ∃ store rows₁ pushed₁ held, w.store.write write = .ok store ∧ KeepsExperiment w.store write ∧
      Tracks { w with store } rows₁ pushed₁ ∧ (rows₁.get c).find? (hasId "x") = some namedRow ∧
      store.Holds held ∧ (held.get c).find? (hasId "x") = some plainRow := by
  intro write
  have hrow : write.row = namedRow := withId_namedRow
  have hreads : write.row.ReadsBack := hrow ▸ readsBack_namedRow
  obtain ⟨store, hwrite⟩ := h.isReady.exists_write (w := write) trivial
  have hget : w.store.get c "x" = .ok (some plainRow) :=
    (TableStore.get_of_holds h.holds c "x").trans (congrArg _ hheld)
  have hsame : KeepsExperiment w.store write := by
    intro _ old hold
    obtain rfl := Option.some.inj (Except.ok.inj (hget.symm.trans hold))
    change write.row.experiment? = _
    rw [hrow]
    rfl
  have hpart : ∀ p, IsPart c p → ∀ r ∈ rows.get c, r.id? = some "x" → p r = p write.row :=
    fun p hpart => part_of_write h.holds hwrite hsame hpart
  obtain ⟨log, hlog, -⟩ := h.expects
  obtain ⟨hholds, -⟩ := TableStore.holds_write h.names h.holds hlog hreads hwrite
  refine ⟨store, _, _, _, hwrite, hsame, tracks_write h.toTracks h.holds hwrite hreads
    (takesIn_set write rows) (h.holds.keyed c) hpart, ?_, hholds, ?_⟩
  · change ((rows.set c (upsertRow write.row (rows.get c))).get c).find? (hasId "x") = _
    rw [ByCollection.get_set_self, hrow]
    exact find?_upsertRow_self (hrow ▸ write.id?_row) _
  · change ((rows.set c (write.onto (keepsBodies (w.store.names.get c)) (rows.get c))).get c).find?
      (hasId "x") = _
    rw [ByCollection.get_set_self, hkeeps, Write.onto_of_held (w := write) hheld, hheld]

/-- A client that shows the experiment is led astray by a row of it that is written twice, if the
table of the row keeps its bodies. -/
theorem not_converges_of_keepsBodies (h : Consistent w rows pushed)
    (hstage : w.stage = .following (some "e")) (hc : c ≠ .analytics)
    (hkeeps : keepsBodies (w.store.names.get c) = true)
    (hfree : (rows.get c).find? (hasId "x") = none) :
    let steps : List Step := [.write (.upsert c "x" plainRow), .write (.upsert c "x" namedRow)]
    w.Allows steps ∧ ¬ (w.run steps).Converges := by
  intro steps
  obtain ⟨store, rows₁, pushed₁, hwrite, hsame, h₁, hnames, hheld⟩ := exists_write_plainRow h hfree
  obtain ⟨store', rows₂, pushed₂, held, hwrite', hsame', h₂, hwritten, hholds, hkept⟩ :=
    exists_write_namedRow h₁ (hnames ▸ hkeeps) hheld
  have hstep := step_write hwrite
  have hstep' : Watching.step { w with store } (.write (.upsert c "x" namedRow)) = _ :=
    step_write hwrite'
  have hreads : (Write.upsert c "x" plainRow).row.ReadsBack := by
    change (plainRow.withId "x").ReadsBack
    rw [withId_plainRow]
    exact readsBack_plainRow
  have hreads' : (Write.upsert c "x" namedRow).row.ReadsBack := by
    change (namedRow.withId "x").ReadsBack
    rw [withId_namedRow]
    exact readsBack_namedRow
  refine ⟨⟨hreads, hsame, ?_⟩, ?_⟩
  · rw [hstep]
    exact ⟨hreads', hsame', trivial⟩
  · rw [run_cons, hstep, run_cons, hstep']
    exact not_converges_of_kept h₂ hholds hstage hc hwritten hkept (by cbv) (by cbv)
      plainRow_ne_namedRow

/-- The experiment. -/
def experimentRow : Document := [("id", .string "e")]

/-- In a store where a collection that is shown has a table that keeps its bodies, a client comes
from the start to where it is led astray. -/
theorem exists_not_converges {store : TableStore}
    (h : Consistent { store } (.ofFn fun _ => []) (.ofFn fun _ => [])) (hc : c ≠ .analytics)
    (hkeeps : keepsBodies (store.names.get c) = true) :
    ∃ steps, Allows { store } steps ∧ ¬ (run { store } steps).Converges := by
  let write : Write := .insert .experiments "" experimentRow
  have hreads : write.row.ReadsBack := by
    unfold Document.ReadsBack
    cbv
  have hfree : ((ByCollection.ofFn fun _ => []).get write.collection).find? (hasId write.id) =
      none := by
    rw [ByCollection.get_ofFn]
    rfl
  obtain ⟨store₁, hwrite⟩ := h.isReady.exists_write (w := write) hfree
  have hadded := TableStore.rowsAfter_of_free (s := store) hfree
  obtain ⟨h₁, hnames⟩ := consistent_write h hwrite hreads trivial (hadded ▸ takesIn_set write _)
  rw [hadded] at h₁
  obtain ⟨n, asked?, hstage, h₂⟩ := exists_run_following h₁
  have hseeks : Seeks "e" (Watching.run { store := store₁ } (List.replicate n .proceed)).stage :=
    seeks_run h₁ (by decide +kernel) trivial n
  rw [hstage] at hseeks
  obtain rfl : asked? = some "e" := hseeks
  have hstore := store_run_of_isOwn (isOwn_replicate_proceed n) { store := store₁ }
  obtain ⟨hallows, hdiverges⟩ := not_converges_of_keepsBodies h₂ hstage hc
    (by rw [hstore]; exact hnames ▸ hkeeps) (by cases c <;> decide +kernel)
  have hstep : Watching.step { store } (.write write) = { store := store₁ } := step_write hwrite
  let later : List Step := [.write (.upsert c "x" plainRow), .write (.upsert c "x" namedRow)]
  refine ⟨.write write :: (List.replicate n .proceed ++ later), ⟨hreads, trivial, ?_⟩, ?_⟩
  · rw [hstep]
    exact allows_append.2 ⟨allows_of_isOwn (isOwn_replicate_proceed n) _, hallows⟩
  · rw [run_cons, hstep, run_append]
    exact hdiverges

/-! ## Convergence -/

/-- However writes fall between the steps of a client, the client never fails and gives up none of its
streams, comes from any point to where it has applied all there are, and shows what the store holds
whenever it has: all this just where none of the collections that it shows has a table that keeps
its bodies. -/
theorem watch_converges_iff {s store : TableStore} (hnames : TableStore.HasDistinctTables s.names)
    (hempty : s.database = .empty) (hprepare : DocumentStore.prepare s = (.ok (), store)) :
    (∀ steps, Allows { store } steps → (run { store } steps).Converges) ↔
      ∀ c, c ≠ .analytics → keepsBodies (s.names.get c) = false := by
  have hstart := consistent_start hnames hempty hprepare
  obtain ⟨-, hsame, -⟩ := TableStore.holds_prepared hnames hempty hprepare
  constructor
  · intro hconverges c hc
    by_contra hkeeps
    obtain ⟨steps, hallows, hdiverges⟩ := exists_not_converges hstart hc
      (hsame.symm ▸ Bool.of_not_eq_false hkeeps)
    exact hdiverges (hconverges steps hallows)
  · intro hreplace steps hallows
    obtain ⟨rows, pushed, h⟩ := exists_consistent_run hstart (hsame.symm ▸ hreplace) hallows
    exact h.converges

/-- Whether a client follows the changes, having asked for the detail of an experiment or of none, and
has applied all there are. -/
def isSettled (w : Watching) (asked? : Option String) : Bool :=
  (match w.stage with
    | .following other? => other? == asked?
    | _ => false) &&
  Collection.all.all fun c => (w.inbox.get c).isEmpty && (w.tails.get c).all fun tail =>
    match DocumentStore.next w.store tail with
    | .pending _ => true
    | _ => false

theorem following_of_isSettled {asked? : Option String} (h : w.isSettled asked? = true) :
    w.stage = .following asked? ∧ w.IsCaughtUp := by
  obtain ⟨hstage, hcollections⟩ := Bool.and_eq_true_iff.1 h
  refine ⟨?_, fun c => ?_, fun c tail htail => ?_⟩
  · split at hstage
    · rename_i other? heq
      rw [heq, beq_iff_eq.1 hstage]
    · cases hstage
  · obtain ⟨hinbox, -⟩ :=
      Bool.and_eq_true_iff.1 (List.all_eq_true.1 hcollections c (Collection.mem_all c))
    exact List.isEmpty_iff.1 hinbox
  · obtain ⟨-, htails⟩ :=
      Bool.and_eq_true_iff.1 (List.all_eq_true.1 hcollections c (Collection.mem_all c))
    rw [htail, Option.all_some] at htails
    split at htails
    · rename_i tail' hnext
      exact ⟨tail', hnext⟩
    · cases htails

/-- A run in which writes fall before the listing, between the listing and the reads, and between the
reads, and in the end all their changes are applied. -/
def interrupted : List Step :=
  [.write (.insert .experiments "" [("id", .string "e")]), .proceed, .proceed,
    .write (.insert .transformations "" [("experiment_id", .string "e"), ("id", .string "t")]),
    .proceed, .proceed, .proceed, .proceed,
    .write (.upsert .experiments "e" [("name", .string "n")]), .proceed, .proceed, .proceed,
    .write (.insert .tests "x" [("experiment_id", .string "e")]), .proceed, .proceed,
    .ask .tests, .ask .experiments, .apply .tests, .ask .transformations, .apply .experiments,
    .apply .transformations]

theorem allows_interrupted (w : Watching) : w.Allows interrupted := by
  refine ⟨?_, trivial, ?_, trivial, ?_, fun hne => absurd rfl hne, ?_, trivial, trivial⟩
  all_goals
    unfold Document.ReadsBack
    cbv

/-- The client shows what was written in between. -/
theorem watch_converges_with_writes_between :
    let s : TableStore := { path := "lab.db", names := .ofFn Collection.name }
    let store := (DocumentStore.prepare s).2
    let w := run { store } interrupted
    (TableStore.HasDistinctTables s.names ∧ s.database = .empty ∧
      DocumentStore.prepare s = (.ok (), store) ∧ Allows { store } interrupted) ∧
    (∀ c, c ≠ .analytics → keepsBodies (s.names.get c) = false) ∧
    w.stage = .following (some "e") ∧ w.IsCaughtUp ∧ w.ShowsStore (some "e") ∧
    w.dashboard.views.map (·.id?) = [some "e"] := by
  intro s store w
  have hnames : TableStore.HasDistinctTables s.names := TableStore.hasDistinctTables_usual
  have hreplace : ∀ c, c ≠ .analytics → keepsBodies (s.names.get c) = false :=
    fun c _ => TableStore.canReplace_usual c
  have hprepare : DocumentStore.prepare s = (.ok (), store) := by
    have hok : (DocumentStore.prepare s).1 = .ok () := by decide +kernel
    exact Prod.ext hok rfl
  have hconverges : w.Converges :=
    (watch_converges_iff hnames rfl hprepare).2 hreplace interrupted (allows_interrupted _)
  have hsettled : w.isSettled (some "e") = true := by decide +kernel
  have hviews : w.dashboard.views.map (·.id?) = [some "e"] := by decide +kernel
  obtain ⟨hstage, hcaught⟩ := following_of_isSettled hsettled
  exact ⟨⟨hnames, rfl, hprepare, allows_interrupted _⟩, hreplace, hstage, hcaught,
    hconverges.shows _ hstage hcaught, hviews⟩

/-- A client that finds no experiment when it lists them, and is told of one that is written twice. -/
def misled : List Step :=
  [.proceed, .proceed, .proceed, .proceed, .proceed, .proceed,
    .write (.upsert .experiments "e" []),
    .write (.upsert .experiments "e" [("name", .string "n")]),
    .ask .experiments, .ask .experiments, .apply .experiments, .apply .experiments]

theorem allows_misled (w : Watching) : w.Allows misled := by
  refine ⟨?_, fun hne => absurd rfl hne, ?_, fun hne => absurd rfl hne, trivial⟩
  all_goals
    unfold Document.ReadsBack
    cbv

/-- In a table that keeps its bodies the experiment has no name, and the client shows one. -/
theorem client_shows_row_that_was_not_kept :
    let s : TableStore :=
      { path := "lab.db", names := ⟨"excluded", "transformations", "tests", "analytics"⟩ }
    let store := (DocumentStore.prepare s).2
    let w := run { store } misled
    s.names.fault? = none ∧ TableStore.HasDistinctTables s.names ∧ s.database = .empty ∧
    DocumentStore.prepare s = (.ok (), store) ∧ Allows { store } misled ∧
    w.stage = .following none ∧ w.IsCaughtUp ∧ ¬ w.ShowsStore none := by
  intro s store w
  have hnames : TableStore.HasDistinctTables s.names := by
    intro c d
    cases c <;> cases d <;> decide +kernel
  have hprepare : DocumentStore.prepare s = (.ok (), store) := by
    have hok : (DocumentStore.prepare s).1 = .ok () := by decide +kernel
    exact Prod.ext hok rfl
  have hsettled : w.isSettled none = true := by decide +kernel
  obtain ⟨hstage, hcaught⟩ := following_of_isSettled hsettled
  refine ⟨by decide, hnames, rfl, hprepare, allows_misled _, hstage, hcaught, fun hshows => ?_⟩
  have hheld : (w.store.scan .experiments).map (·.map (·.text? "name")) = .ok [none] := by
    decide +kernel
  have hshown : w.dashboard.views.map (·.experiment.text? "name") = [some "n"] := by decide +kernel
  rw [hshows.experiments, Except.map, List.map_map] at hheld
  exact absurd (hshown.symm.trans (Except.ok.inj hheld)) (by decide)

end Watching

end TrialBoard
