import TrialBoard.Proofs.DetailMerge
import TrialBoard.Proofs.Replay

/-!
# Interleavings of pushed changes

Changes of one collection come in the order in which they were made, those of different collections
in any order. The rows of the experiments do not depend on it. A row that belongs to an experiment
is taken in by the view that the experiment has at that moment, and is dropped if it has none. So
the rows known of an experiment that was held from the start depend only on the order inside each
collection, and for an experiment that is itself pushed they depend on which changes its first row
comes before, and on nothing else.
-/

namespace TrialBoard

open Document
open ExperimentView (upsertRow)

/-- The rows that a view knows of a collection. Of analytics it knows at most one. -/
def ExperimentView.known? (view : ExperimentView) : Collection → Option (List Document)
  | .transformations => view.transformations?
  | .tests => view.tests?
  | .analytics => view.analytics?.map ([·])
  | .experiments => none

theorem ExperimentView.eq_of_known? {view view' : ExperimentView}
    (h : ∀ c, c ≠ .experiments → view.known? c = view'.known? c) :
    view.transformations? = view'.transformations? ∧ view.tests? = view'.tests? ∧
      view.analytics? = view'.analytics? := by
  have hinj : Function.Injective fun row : Document => [row] :=
    fun _ _ heq => (List.cons.inj heq).1
  exact ⟨h .transformations nofun, h .tests nofun,
    Option.map_injective hinj (h .analytics nofun)⟩

/-- What a row makes of the rows known of its collection. -/
def takeIn (c : Collection) (known? : Option (List Document)) (row : Document) :
    Option (List Document) :=
  match c with
  | .transformations | .tests => some (upsertRow row (known?.getD []))
  | .analytics => some [row]
  | .experiments => known?

/-- The rows of a collection that changes bring to an experiment. -/
def pushedTo (id : String) (c : Collection) (feeds : List ChangeFeed) : List Document :=
  (pushedInto c feeds).filter fun row => row.experiment? == some id

theorem pushedInto_cons (c : Collection) (feed : ChangeFeed) (feeds : List ChangeFeed) :
    pushedInto c (feed :: feeds) = pushedInto c [feed] ++ pushedInto c feeds :=
  List.filterMap_append (l := [feed])

theorem pushedTo_cons (id : String) (c : Collection) (feed : ChangeFeed)
    (feeds : List ChangeFeed) :
    pushedTo id c (feed :: feeds) = pushedTo id c [feed] ++ pushedTo id c feeds := by
  unfold pushedTo
  rw [pushedInto_cons, List.filter_append]

theorem pushedTo_eq_nil {id : String} {c : Collection} {feed : ChangeFeed}
    (h : feed.table ≠ c) : pushedTo id c [feed] = [] := by
  simp [pushedTo, pushedInto, h]

theorem pushedTo_object (id : String) (c : Collection) (row : Document) :
    pushedTo id c [⟨c, .object row⟩] = if row.experiment? = some id then [row] else [] := by
  simp [pushedTo, pushedInto, Json.asObject?, List.filter_cons]

/-- Two interleavings of the same changes of each collection. -/
def SameOrders (feeds feeds' : List ChangeFeed) : Prop :=
  ∀ c, feeds.filter (·.table == c) = feeds'.filter (·.table == c)

theorem pushedInto_filter (c : Collection) (feeds : List ChangeFeed) :
    pushedInto c (feeds.filter (·.table == c)) = pushedInto c feeds := by
  unfold pushedInto
  rw [List.filterMap_filter]
  congr 1
  funext feed
  by_cases h : feed.table = c
  · simp [h]
  · simp [h]

theorem SameOrders.pushedInto_eq {feeds feeds' : List ChangeFeed} (h : SameOrders feeds feeds')
    (c : Collection) : pushedInto c feeds = pushedInto c feeds' := by
  rw [← pushedInto_filter, h c, pushedInto_filter]

/-- Pushed rows change no id and come at the end. -/
theorem map_id?_isPrefix_upsertAll (rows pushed : List Document) :
    rows.map Document.id? <+: (upsertAll rows pushed).map Document.id? := by
  induction pushed generalizing rows with
  | nil => exact List.prefix_rfl
  | cons row pushed ih =>
    refine List.IsPrefix.trans ?_ (ih (upsertRow row rows))
    cases hid : row.id? with
    | none =>
      rw [upsertRow, hid, List.map_append]
      exact List.prefix_append _ _
    | some id =>
      rw [map_id?_upsertRow hid]
      split
      · exact List.prefix_rfl
      · exact List.prefix_append _ _

/-- Whether a change brings a row of the experiment itself. -/
def ChangeFeed.introduces (id : String) (feed : ChangeFeed) : Bool :=
  (pushedInto .experiments [feed]).any (hasId id)

namespace Dashboard

variable {d : Dashboard} {id : String} {view : ExperimentView} {feed : ChangeFeed}

theorem known?_pushInto (c table : Collection) (row : Document) (select : Bool)
    (view : ExperimentView) :
    (pushInto table row select view).known? c =
      if table = c then takeIn c (view.known? c) row else view.known? c := by
  cases c <;> cases table <;> rfl

/-- A change is a row of an experiment, a row that belongs to one, or it changes nothing. -/
theorem applyChange_cases (d : Dashboard) (feed : ChangeFeed) :
    (∃ row, feed = ⟨.experiments, .object row⟩ ∧ (d.applyChange feed).2 = d.pushExperiment row) ∨
    (∃ table row owner, table ≠ .experiments ∧ feed = ⟨table, .object row⟩ ∧
      Document.experiment? row = some owner ∧ (d.applyChange feed).2 =
        (d.modify owner (pushInto table row (d.isExperimentActive owner))).2) ∨
    ((d.applyChange feed).2 = d ∧ pushedInto .experiments [feed] = [] ∧
      ∀ id c, c ≠ .experiments → pushedTo id c [feed] = []) := by
  obtain ⟨table, value⟩ := feed
  cases hvalue : value.asObject? with
  | none =>
    refine .inr (.inr ⟨?_, ?_, ?_⟩)
    · cases value <;> cases table <;> first | rfl | cases hvalue
    · simp [pushedInto, hvalue]
    · simp [pushedTo, pushedInto, hvalue]
  | some row =>
    obtain rfl : value = .object row := by
      cases value <;> first | cases hvalue; rfl | cases hvalue
    by_cases htable : table = .experiments
    · subst htable
      exact .inl ⟨row, rfl, rfl⟩
    · cases hrow : Document.experiment? row with
      | some owner =>
        refine .inr (.inl ⟨table, row, owner, htable, rfl, hrow, ?_⟩)
        rw [applyChange_child htable hrow]
      | none =>
        refine .inr (.inr ⟨by rw [applyChange_orphan htable hrow], ?_, fun id c hc => ?_⟩)
        · simp [pushedInto, htable]
        · by_cases hsame : table = c
          · subst hsame
            rw [pushedTo_object, hrow, if_neg (by simp)]
          · exact pushedTo_eq_nil hsame

/-! ## The rows of the experiments -/

theorem experiments_applyChange_eq (d : Dashboard) (feed : ChangeFeed) :
    (d.applyChange feed).2.experiments =
      upsertAll d.experiments (pushedInto .experiments [feed]) := by
  obtain ⟨row, rfl, happly⟩ | ⟨table, row, owner, htable, rfl, -, -⟩ | ⟨happly, hnone, -⟩ :=
    d.applyChange_cases feed
  · rw [happly, experiments_pushExperiment]
    rfl
  · rw [experiments_applyChange htable]
    simp [pushedInto, htable]
  · rw [happly, hnone]
    rfl

theorem experiments_applyChanges (feeds : List ChangeFeed) (d : Dashboard) :
    (d.applyChanges feeds).experiments =
      upsertAll d.experiments (pushedInto .experiments feeds) := by
  induction feeds generalizing d with
  | nil => rfl
  | cons feed feeds ih =>
    rw [pushedInto_cons, upsertAll_append, ← experiments_applyChange_eq]
    exact ih _

theorem isSome_experiment? (d : Dashboard) (id : String) :
    (d.experiment? id).isSome = d.experiments.any (hasId id) := by
  have h := d.find?_experiments id
  rw [← List.isSome_find?, h, Option.isSome_map]

theorem isSome_experiment?_applyChange (d : Dashboard) (feed : ChangeFeed) (id : String) :
    ((d.applyChange feed).2.experiment? id).isSome =
      ((d.experiment? id).isSome || feed.introduces id) := by
  rw [isSome_experiment?, isSome_experiment?, experiments_applyChange_eq, any_hasId_upsertAll]
  rfl

/-! ## The rows known of an experiment -/

theorem known?_applyChange (feed : ChangeFeed) (hview : d.experiment? id = some view) :
    ∃ view', (d.applyChange feed).2.experiment? id = some view' ∧
      ∀ c, c ≠ .experiments →
        view'.known? c = (pushedTo id c [feed]).foldl (takeIn c) (view.known? c) := by
  obtain ⟨row, rfl, happly⟩ | ⟨table, row, owner, htable, rfl, hrow, happly⟩ |
    ⟨happly, -, hnone⟩ := d.applyChange_cases feed
  · obtain ⟨row', hrow'⟩ := experiment?_pushExperiment row d hview
    rw [happly]
    refine ⟨_, hrow', fun c hc => ?_⟩
    rw [pushedTo_eq_nil hc.symm]
    cases c <;> rfl
  · rw [happly]
    by_cases howner : owner = id
    · subst howner
      rw [experiment?_modify (id?_pushInto table row _), hview]
      refine ⟨_, rfl, fun c hc => ?_⟩
      rw [known?_pushInto]
      by_cases hsame : table = c
      · subst hsame
        rw [pushedTo_object, if_pos hrow, if_pos rfl]
        rfl
      · rw [pushedTo_eq_nil hsame, if_neg hsame]
        rfl
    · rw [experiment?_modify_of_ne (id?_pushInto table row _) (Ne.symm howner)]
      refine ⟨view, hview, fun c hc => ?_⟩
      have hnone : pushedTo id c [⟨table, .object row⟩] = [] := by
        by_cases hsame : table = c
        · subst hsame
          rw [pushedTo_object, hrow, if_neg (by simpa using howner)]
        · exact pushedTo_eq_nil hsame
      rw [hnone]
      rfl
  · rw [happly]
    refine ⟨view, hview, fun c hc => ?_⟩
    rw [hnone id c hc]
    rfl

/-- A view that is held takes in every row that is pushed to its experiment. -/
theorem known?_applyChanges_of_held (feeds : List ChangeFeed)
    (hview : d.experiment? id = some view) :
    ∃ view', (d.applyChanges feeds).experiment? id = some view' ∧
      ∀ c, c ≠ .experiments →
        view'.known? c = (pushedTo id c feeds).foldl (takeIn c) (view.known? c) := by
  induction feeds generalizing d view with
  | nil => exact ⟨view, hview, fun c _ => rfl⟩
  | cons feed feeds ih =>
    obtain ⟨next, hnext, hstep⟩ := known?_applyChange feed hview
    obtain ⟨view', hview', hrun⟩ := ih hnext
    refine ⟨view', hview', fun c hc => ?_⟩
    rw [hrun c hc, hstep c hc, pushedTo_cons id c feed feeds, List.foldl_append]

/-- The first row of an experiment makes a view of which nothing is known. -/
theorem known?_of_introduced (hnone : d.experiment? id = none)
    (hview : (d.applyChange feed).2.experiment? id = some view) (c : Collection) :
    view.known? c = none := by
  have hfeed : feed.introduces id = true := by
    have h := d.isSome_experiment?_applyChange feed id
    simpa [hview, hnone] using h
  obtain ⟨row, rfl, happly⟩ | ⟨table, row, owner, htable, rfl, -, -⟩ | ⟨-, hno, -⟩ :=
    d.applyChange_cases feed
  · have hid : Document.id? row = some id := by
      simpa [ChangeFeed.introduces, pushedInto, Json.asObject?, hasId_iff] using hfeed
    rw [happly, pushExperiment] at hview
    simp only [hid, hnone, Option.isSome_none, Bool.false_eq_true, if_false] at hview
    rw [experiment?] at hnone hview
    rw [List.find?_append, hnone, Option.none_or] at hview
    obtain rfl := List.mem_singleton.1 (List.mem_of_find?_eq_some hview)
    cases c <;> rfl
  · simp [ChangeFeed.introduces, pushedInto, htable] at hfeed
  · simp [ChangeFeed.introduces, hno] at hfeed

/-- The changes that come after the first row of an experiment. -/
def afterFirst (id : String) (feeds : List ChangeFeed) : List ChangeFeed :=
  (feeds.dropWhile fun feed => !feed.introduces id).tail

/-- The changes that the view of an experiment is there for. -/
def heard (d : Dashboard) (id : String) (feeds : List ChangeFeed) : List ChangeFeed :=
  if (d.experiment? id).isSome then feeds else afterFirst id feeds

/-- The rows known of an experiment are those that were pushed to it while it had a view, taken in
one after the other. -/
theorem known?_applyChanges {feeds : List ChangeFeed}
    (hview : (d.applyChanges feeds).experiment? id = some view) {c : Collection}
    (hc : c ≠ .experiments) :
    view.known? c =
      (pushedTo id c (d.heard id feeds)).foldl (takeIn c)
        ((d.experiment? id).bind (·.known? c)) := by
  induction feeds generalizing d with
  | nil =>
    rw [show d.applyChanges [] = d from rfl] at hview
    have hheard : d.heard id [] = [] := by simp [heard, hview]
    rw [hheard, hview]
    rfl
  | cons feed feeds ih =>
    cases hheld : d.experiment? id with
    | some held =>
      obtain ⟨view', hview', hrun⟩ := known?_applyChanges_of_held (feed :: feeds) hheld
      obtain rfl : view = view' := Option.some.inj (hview.symm.trans hview')
      rw [hrun c hc, heard, hheld]
      rfl
    | none =>
      have hlater : (d.heard id (feed :: feeds)) = (d.applyChange feed).2.heard id feeds := by
        have hisSome := d.isSome_experiment?_applyChange feed id
        rw [hheld, Option.isSome_none, Bool.false_or] at hisSome
        rw [heard, heard, hheld, hisSome, Option.isSome_none, if_neg (by simp), afterFirst,
          List.dropWhile_cons]
        cases feed.introduces id <;> rfl
      rw [ih hview, hlater]
      congr 1
      cases hnext : (d.applyChange feed).2.experiment? id with
      | none => rfl
      | some next => exact known?_of_introduced hheld hnext c

/-! ## Views that are not found -/

/-- The ids under which a dashboard shows experiments. -/
def ids (d : Dashboard) : List (Option String) := d.views.map ExperimentView.id?

theorem ids_eq (d : Dashboard) : d.ids = d.experiments.map Document.id? := by
  unfold ids experiments
  rw [List.map_map]
  rfl

theorem modifyFirst_eq_modify (id : String) (f : ExperimentView → ExperimentView)
    (views : List ExperimentView) :
    modifyFirst id f views =
      views.modify ((views.map ExperimentView.id?).idxOf (some id)) f := by
  induction views with
  | nil => simp [modifyFirst]
  | cons view views ih =>
    rw [modifyFirst, List.map_cons, List.idxOf_cons, ExperimentView.hasId]
    cases view.id? == some id with
    | true => rfl
    | false => exact congrArg (view :: ·) ih

theorem experiment?_eq_getElem? (d : Dashboard) (id : String) :
    d.experiment? id = d.views[d.ids.idxOf (some id)]? := by
  unfold experiment? ids
  induction d.views with
  | nil => rfl
  | cons view views ih =>
    rw [List.find?_cons, List.map_cons, List.idxOf_cons, ExperimentView.hasId]
    cases view.id? == some id with
    | true => rfl
    | false => exact ih

/-- Whether the view at a place is the one that is found under its id. -/
def IsFound (d : Dashboard) (i : Nat) : Prop :=
  ∃ id, some id ∈ d.ids ∧ d.ids.idxOf (some id) = i

theorem ids_applyChange (d : Dashboard) (feed : ChangeFeed) :
    d.ids <+: (d.applyChange feed).2.ids := by
  rw [ids_eq, ids_eq, experiments_applyChange_eq]
  exact map_id?_isPrefix_upsertAll _ _

theorem IsFound.applyChange {i : Nat} (h : d.IsFound i) (feed : ChangeFeed) :
    (d.applyChange feed).2.IsFound i := by
  obtain ⟨id, hmem, hi⟩ := h
  obtain ⟨new, hnew⟩ := d.ids_applyChange feed
  refine ⟨id, ?_, ?_⟩
  · rw [← hnew]
    exact List.mem_append_left _ hmem
  · rw [← hnew, List.idxOf_append, if_pos hmem, hi]

theorem IsFound.applyChanges {i : Nat} (h : d.IsFound i) (feeds : List ChangeFeed) :
    (d.applyChanges feeds).IsFound i := by
  induction feeds generalizing d with
  | nil => exact h
  | cons feed feeds ih => exact ih (h.applyChange feed)

theorem getElem?_modify_of_not_found {i : Nat} (h : ¬ d.IsFound i)
    (f : ExperimentView → ExperimentView) :
    (d.modify id f).2.views[i]? = d.views[i]? := by
  unfold modify
  split
  · rename_i hheld
    have hmem : some id ∈ d.ids := by
      rw [ids_eq, ← any_hasId_iff, ← isSome_experiment?, hheld]
    have hne : d.ids.idxOf (some id) ≠ i := fun hi => h ⟨id, hmem, hi⟩
    rw [modifyFirst_eq_modify]
    exact List.getElem?_modify_ne f d.views hne
  · rfl

theorem known?_pushExperiment (row : Document) (d : Dashboard) (i : Nat) (c : Collection) :
    (d.pushExperiment row).views[i]?.bind (·.known? c) = d.views[i]?.bind (·.known? c) := by
  have hadded : (d.views ++ [{ experiment := row }])[i]?.bind (·.known? c) =
      d.views[i]?.bind (·.known? c) := by
    rw [List.getElem?_append]
    split
    · rfl
    · rename_i hi
      rw [List.getElem?_eq_none (Nat.le_of_not_lt hi)]
      cases i - d.views.length <;> cases c <;> rfl
  unfold pushExperiment
  cases row.id? with
  | none => exact hadded
  | some id =>
    simp only
    split
    · rw [modifyFirst_eq_modify, List.getElem?_modify]
      split
      · cases d.views[i]? <;> cases c <;> rfl
      · simp
    · exact hadded

/-- What is known at a place where no experiment is found stays as it is. -/
theorem known?_applyChanges_of_not_found {feeds : List ChangeFeed} {i : Nat}
    (h : ¬ (d.applyChanges feeds).IsFound i) (c : Collection) :
    (d.applyChanges feeds).views[i]?.bind (·.known? c) = d.views[i]?.bind (·.known? c) := by
  induction feeds generalizing d with
  | nil => rfl
  | cons feed feeds ih =>
    refine Eq.trans (ih h) (show (d.applyChange feed).2.views[i]?.bind _ = _ from ?_)
    have hfound : ¬ d.IsFound i := fun hd => h (hd.applyChanges (feed :: feeds))
    obtain ⟨row, rfl, happly⟩ | ⟨table, row, owner, htable, rfl, -, happly⟩ | ⟨happly, -, -⟩ :=
      d.applyChange_cases feed
    · rw [happly, known?_pushExperiment]
    · rw [happly, getElem?_modify_of_not_found hfound]
    · rw [happly]

/-! ## Two interleavings -/

/-- Whether an experiment that is not held gets the same rows after its first one. -/
def HearsAlike (d : Dashboard) (id : String) (feeds feeds' : List ChangeFeed) : Prop :=
  (d.experiment? id).isSome ∨ ∀ c, c ≠ .experiments →
    pushedTo id c (afterFirst id feeds) = pushedTo id c (afterFirst id feeds')

theorem pushedTo_heard {feeds feeds' : List ChangeFeed} (horders : SameOrders feeds feeds')
    (hheard : d.HearsAlike id feeds feeds') {c : Collection} (hc : c ≠ .experiments) :
    pushedTo id c (d.heard id feeds) = pushedTo id c (d.heard id feeds') := by
  unfold heard
  split
  · rw [pushedTo, pushedTo, horders.pushedInto_eq]
  · rename_i hnone
    exact hheard.resolve_left hnone c hc

/-- Two interleavings of the same changes of each collection show the same experiments, and know the
same rows of every experiment that was held before or that gets the same rows after its first one. -/
theorem interleavings_agree {d : Dashboard} {feeds feeds' : List ChangeFeed}
    (horders : SameOrders feeds feeds') :
    (d.applyChanges feeds).experiments = (d.applyChanges feeds').experiments ∧
    ∀ (i : Nat) (view view' : ExperimentView), (d.applyChanges feeds).views[i]? = some view →
      (d.applyChanges feeds').views[i]? = some view' →
      (∀ id, view.id? = some id → d.HearsAlike id feeds feeds') →
      view.transformations? = view'.transformations? ∧ view.tests? = view'.tests? ∧
        view.analytics? = view'.analytics? := by
  have hexperiments : (d.applyChanges feeds).experiments = (d.applyChanges feeds').experiments := by
    rw [experiments_applyChanges, experiments_applyChanges, horders.pushedInto_eq]
  have hids : (d.applyChanges feeds).ids = (d.applyChanges feeds').ids := by
    rw [ids_eq, ids_eq, hexperiments]
  refine ⟨hexperiments, fun i view view' hview hview' halike => ?_⟩
  refine ExperimentView.eq_of_known? fun c hc => ?_
  by_cases hfound : (d.applyChanges feeds).IsFound i
  · obtain ⟨id, -, hi⟩ := hfound
    have hat : (d.applyChanges feeds).experiment? id = some view := by
      rw [experiment?_eq_getElem?, hi, hview]
    have hat' : (d.applyChanges feeds').experiment? id = some view' := by
      rw [experiment?_eq_getElem?, ← hids, hi, hview']
    have hid : view.id? = some id := ExperimentView.hasId_iff.1 (List.find?_some hat)
    rw [known?_applyChanges hat hc, known?_applyChanges hat' hc,
      pushedTo_heard horders (halike id hid) hc]
  · have hfound' : ¬ (d.applyChanges feeds').IsFound i := by
      rw [IsFound] at hfound ⊢
      rwa [← hids]
    have h := known?_applyChanges_of_not_found hfound c
    have h' := known?_applyChanges_of_not_found hfound' c
    rw [hview] at h
    rw [hview', ← h] at h'
    exact h'.symm

/-- An experiment is pushed between its own tests, the later of which comes before or after its
transformation. -/
theorem interleavings_agree_on_pushed_experiment :
    let experiment (id : String) : Document := [("id", .string id)]
    let row (owner id : String) : Document :=
      [("experiment_id", .string owner), ("id", .string id)]
    let feed (c : Collection) (row : Document) : ChangeFeed := ⟨c, .object row⟩
    let d := (empty.load [experiment "e"]).2
    let feeds := [feed .tests (row "f" "x1"), feed .experiments (experiment "f"),
      feed .transformations (row "f" "t1"), feed .tests (row "e" "x2"), feed .tests (row "f" "x3")]
    let feeds' := [feed .tests (row "f" "x1"), feed .tests (row "e" "x2"),
      feed .experiments (experiment "f"), feed .tests (row "f" "x3"),
      feed .transformations (row "f" "t1")]
    SameOrders feeds feeds' ∧ d.HearsAlike "f" feeds feeds' ∧
    ∃ view view', (d.applyChanges feeds).views[1]? = some view ∧
      (d.applyChanges feeds').views[1]? = some view' ∧
      view.transformations? = some [row "f" "t1"] ∧ view.tests? = some [row "f" "x3"] ∧
      view.transformations? = view'.transformations? ∧ view.tests? = view'.tests? ∧
      view.analytics? = view'.analytics? := by
  intro experiment row feed d feeds feeds'
  have horders : SameOrders feeds feeds' := by
    intro c
    cases c <;> rfl
  have halike : d.HearsAlike "f" feeds feeds' := by
    refine .inr fun c hc => ?_
    cases c with
    | experiments => exact absurd rfl hc
    | transformations | tests | analytics => rfl
  obtain ⟨view, hview, hid, htransformations, htests⟩ : ∃ view,
      (d.applyChanges feeds).views[1]? = some view ∧ view.id? = some "f" ∧
        view.transformations? = some [row "f" "t1"] ∧ view.tests? = some [row "f" "x3"] :=
    ⟨_, rfl, rfl, rfl, rfl⟩
  obtain ⟨view', hview'⟩ : ∃ view', (d.applyChanges feeds').views[1]? = some view' := ⟨_, rfl⟩
  refine ⟨horders, halike, view, view', hview, hview', htransformations, htests, ?_⟩
  refine (interleavings_agree horders).2 1 view view' hview hview' fun id hid' => ?_
  obtain rfl : "f" = id := Option.some.inj (hid.symm.trans hid')
  exact halike

/-- A transformation that comes before its experiment is dropped, and it is taken in if it comes
after it. -/
theorem row_before_experiment_lost :
    let row : Document := [("experiment_id", .string "e"), ("id", .string "t")]
    let feeds : List ChangeFeed :=
      [⟨.transformations, .object row⟩, ⟨.experiments, .object [("id", .string "e")]⟩]
    SameOrders feeds feeds.reverse ∧
    ∃ view view', (empty.applyChanges feeds).experiment? "e" = some view ∧
      (empty.applyChanges feeds.reverse).experiment? "e" = some view' ∧
      view.transformations? = none ∧ view'.transformations? = some [row] := by
  intro row feeds
  refine ⟨fun c => ?_, _, _, rfl, rfl, rfl, rfl⟩
  cases c <;> rfl

end Dashboard

end TrialBoard
