import TrialBoard.Dashboard.Basic
import TrialBoard.Proofs.Rows

/-!
# Views found by id

A dashboard finds the view of an experiment by its id, the first one winning. What is changed in
that view changes no other view, and none of the ids.
-/

namespace TrialBoard

/-- The rows of a kind of which a view has many. -/
def ExperimentView.rows? (view : ExperimentView) : Collection → Option (List Document)
  | .transformations => view.transformations?
  | .tests => view.tests?
  | .analytics => none
  | .experiments => none

/-- The rows of a detail in a collection. -/
def Detail.rowsOf (detail : Detail) : Collection → List Document
  | .transformations => detail.transformations
  | .tests => detail.tests
  | .analytics => detail.analytics
  | .experiments => []

namespace ExperimentView

theorem hasId_iff {id : String} {view : ExperimentView} :
    view.hasId id = true ↔ view.id? = some id := by
  simp [hasId]

end ExperimentView

namespace Dashboard

open ExperimentView

variable {id other : String} {f : ExperimentView → ExperimentView}

theorem find?_modifyFirst_self (hf : ∀ view, view.hasId id = true → (f view).id? = view.id?)
    (views : List ExperimentView) :
    (modifyFirst id f views).find? (hasId id) = (views.find? (hasId id)).map f := by
  induction views with
  | nil => rfl
  | cons view views ih =>
    unfold modifyFirst
    by_cases hv : view.hasId id
    · have hfv : (f view).hasId id = true := by rw [hasId_iff, hf view hv, ← hasId_iff, hv]
      simp [hv, hfv]
    · simp [hv, ih]

theorem find?_modifyFirst_of_ne (hf : ∀ view, view.hasId id = true → (f view).id? = view.id?)
    (h : other ≠ id) (views : List ExperimentView) :
    (modifyFirst id f views).find? (hasId other) = views.find? (hasId other) := by
  induction views with
  | nil => rfl
  | cons view views ih =>
    unfold modifyFirst
    by_cases hv : view.hasId id
    · have hview : view.hasId other = false := by
        simp only [hasId, hasId_iff.1 hv, beq_eq_false_iff_ne]
        exact fun he => h (Option.some.inj he).symm
      have hfv : (f view).hasId other = false := by
        rw [← hview]
        simp only [hasId, hf view hv]
      simp [hv, hfv, hview]
    · simp only [hv, Bool.false_eq_true, if_false, List.find?_cons, ih]

/-- What a change leaves alone in a view, it leaves alone in all of them. -/
theorem map_modifyFirst {α : Type} {g : ExperimentView → α} (hg : ∀ view, g (f view) = g view)
    (views : List ExperimentView) : (modifyFirst id f views).map g = views.map g := by
  induction views with
  | nil => rfl
  | cons view views ih =>
    unfold modifyFirst
    split <;> simp [hg, ih]

theorem modify_of_some {d : Dashboard} {view : ExperimentView} (h : d.experiment? id = some view) :
    d.modify id f = (true, { d with views := modifyFirst id f d.views }) := by
  simp [modify, h]

theorem experiment?_modify (hf : ∀ view, (f view).id? = view.id?) (d : Dashboard) :
    (d.modify id f).2.experiment? id = (d.experiment? id).map f := by
  cases h : d.experiment? id with
  | none => simp [modify, h]
  | some view =>
    rw [modify_of_some h]
    exact (find?_modifyFirst_self (fun view _ => hf view) d.views).trans
      (congrArg (Option.map f) h)

theorem experiment?_modify_of_ne (hf : ∀ view, (f view).id? = view.id?) (h : other ≠ id)
    (d : Dashboard) : (d.modify id f).2.experiment? other = d.experiment? other := by
  unfold modify
  split
  · exact find?_modifyFirst_of_ne (fun view _ => hf view) h d.views
  · rfl

/-- The rows of the experiments that a dashboard shows. -/
def experiments (d : Dashboard) : List Document := d.views.map (·.experiment)

theorem experiments_modify (hf : ∀ view, (f view).experiment = view.experiment) (d : Dashboard) :
    (d.modify id f).2.experiments = d.experiments := by
  unfold modify
  split
  · exact map_modifyFirst hf d.views
  · rfl

/-! ## A listing -/

theorem experiments_load (rows : List Document) : (empty.load rows).2.experiments = rows := by
  have hrows : ∀ selected? : Option String,
      experiments { views := rows.map fun e => { experiment := e }, selected? } = rows := by
    intro selected?
    simp [experiments, Function.comp_def]
  have hselect : ∀ id, experiments
      (select { views := rows.map fun e => { experiment := e } } id).2 = rows := by
    intro id
    unfold select
    split
    · exact hrows _
    · exact hrows _
  unfold load
  simp only [empty, List.nil_append]
  split
  · exact hrows _
  · exact hselect _

/-- The experiment whose detail a listing asks for is shown, and nothing else is known of it. -/
theorem experiment?_load {rows : List Document} (h : (empty.load rows).1 = some id) :
    ∃ view, (empty.load rows).2.experiment? id = some view ∧ ∀ c, view.rows? c = none := by
  unfold load at h ⊢
  simp only [empty, List.nil_append] at h ⊢
  cases hrecent : (mostRecent rows).bind Document.id? with
  | none => simp [hrecent] at h
  | some recent =>
    simp only [hrecent] at h ⊢
    unfold select at h ⊢
    cases hview : experiment? { views := rows.map fun e => { experiment := e } } recent with
    | none => simp [hview] at h
    | some view =>
      simp only [hview] at h ⊢
      split at h
      · obtain rfl := Option.some.inj h
        refine ⟨view, hview, fun c => ?_⟩
        obtain ⟨row, -, rfl⟩ := List.mem_map.1 (List.mem_of_find?_eq_some hview)
        cases c <;> rfl
      · cases h

/-! ## Fetched details -/

theorem experiment_fillIn (detail : Detail) (view : ExperimentView) :
    (view.fillIn detail).experiment = view.experiment := rfl

theorem id?_fillIn (detail : Detail) (view : ExperimentView) :
    (view.fillIn detail).id? = view.id? := rfl

theorem rows?_fillIn {c : Collection} (hc : c = .transformations ∨ c = .tests) (detail : Detail)
    (view : ExperimentView) :
    (view.fillIn detail).rows? c = some ((view.rows? c).getD (detail.rowsOf c)) := by
  rcases hc with rfl | rfl <;> rfl

/-! ## Pushed rows -/

theorem id?_pushInto (table : Collection) (row : Document) (select : Bool) (view : ExperimentView) :
    (pushInto table row select view).id? = view.id? := by
  cases table <;> rfl

/-- A row that belongs to an experiment changes the view of that experiment only. -/
theorem applyChange_child {table : Collection} (htable : table ≠ .experiments) {row : Document}
    (hrow : Document.experiment? row = some id) (d : Dashboard) :
    d.applyChange ⟨table, .object row⟩ =
      d.modify id (pushInto table row (d.isExperimentActive id)) := by
  cases table with
  | experiments => exact absurd rfl htable
  | transformations => simp [applyChange, hrow]
  | tests => simp [applyChange, hrow]
  | analytics => simp [applyChange, hrow]

theorem map_experiment_modifyFirst (row : Document) {views : List ExperimentView}
    (h : (views.find? (hasId id)).isSome = true) :
    (modifyFirst id (fun view => { view with experiment := row }) views).map (·.experiment) =
      Document.replaceOrAppend row id (views.map (·.experiment)) := by
  induction views with
  | nil => cases h
  | cons view views ih =>
    have hview : Document.hasId id view.experiment = view.hasId id := rfl
    unfold modifyFirst
    rw [List.map_cons, Document.replaceOrAppend, hview]
    split
    · rfl
    · rename_i hv
      rw [List.map_cons, ih (by simpa [hv] using h)]

theorem find?_experiments (d : Dashboard) (id : String) :
    d.experiments.find? (Document.hasId id) = (d.experiment? id).map (·.experiment) := by
  rw [experiments, List.find?_map]
  rfl

theorem experiments_pushExperiment (row : Document) (d : Dashboard) :
    (d.pushExperiment row).experiments = upsertRow row d.experiments := by
  unfold pushExperiment
  cases hrow : row.id? with
  | none => simp [upsertRow, hrow, experiments]
  | some id =>
    rw [upsertRow_of_id hrow]
    simp only
    split
    · rename_i hheld
      exact map_experiment_modifyFirst row hheld
    · rename_i hnone
      have hview : d.experiment? id = none := by simpa using hnone
      have hfind := d.find?_experiments id
      rw [hview] at hfind
      rw [replaceOrAppend_of_find?_eq_none hfind]
      simp [experiments]

/-- A pushed experiment changes nothing of a view but its row. -/
theorem experiment?_pushExperiment (row : Document) {view : ExperimentView} (d : Dashboard)
    (hview : d.experiment? other = some view) :
    ∃ row', (d.pushExperiment row).experiment? other = some { view with experiment := row' } := by
  have hadded : ∀ selected?, experiment?
      { views := d.views ++ [{ experiment := row }], selected? } other = some view := by
    intro selected?
    rw [experiment?, List.find?_append]
    rw [experiment?] at hview
    simp [hview]
  unfold pushExperiment
  cases hrow : row.id? with
  | none => exact ⟨view.experiment, hadded _⟩
  | some id =>
    simp only
    split
    · have hid : ∀ v : ExperimentView, v.hasId id = true →
          ({ v with experiment := row } : ExperimentView).id? = v.id? := by
        intro v hv
        rw [hasId_iff.1 hv]
        exact hrow
      by_cases hne : other = id
      · subst hne
        refine ⟨row, ?_⟩
        rw [experiment?, find?_modifyFirst_self hid]
        exact congrArg (Option.map _) hview
      · exact ⟨view.experiment, (find?_modifyFirst_of_ne hid hne d.views).trans hview⟩
    · exact ⟨view.experiment, hadded _⟩

/-- A pushed experiment leaves what is known of the rows that belong to any experiment. -/
theorem rows?_pushExperiment (row : Document) {view : ExperimentView} (d : Dashboard)
    (hview : d.experiment? other = some view) :
    ∃ view', (d.pushExperiment row).experiment? other = some view' ∧
      ∀ c, view'.rows? c = view.rows? c := by
  obtain ⟨row', hrow'⟩ := experiment?_pushExperiment row d hview
  exact ⟨_, hrow', fun c => by cases c <;> rfl⟩

theorem experiment_pushInto (table : Collection) (row : Document) (select : Bool)
    (view : ExperimentView) : (pushInto table row select view).experiment = view.experiment := by
  cases table <;> rfl

theorem rows?_pushInto {c table : Collection} (hc : c = .transformations ∨ c = .tests)
    (row : Document) (select : Bool) (view : ExperimentView) :
    (pushInto table row select view).rows? c =
      if c = table then some (upsertRow row ((view.rows? c).getD [])) else view.rows? c := by
  rcases hc with rfl | rfl <;> cases table <;> rfl

theorem applyChange_orphan {table : Collection} (htable : table ≠ .experiments) {row : Document}
    (hrow : Document.experiment? row = none) (d : Dashboard) :
    d.applyChange ⟨table, .object row⟩ = (false, d) := by
  cases table with
  | experiments => exact absurd rfl htable
  | transformations | tests | analytics => simp [applyChange, hrow]

/-- A pushed row other than an experiment's leaves the experiments as they are shown. -/
theorem experiments_applyChange {table : Collection} (htable : table ≠ .experiments)
    (row : Document) (d : Dashboard) :
    (d.applyChange ⟨table, .object row⟩).2.experiments = d.experiments := by
  cases hrow : row.experiment? with
  | none => rw [applyChange_orphan htable hrow]
  | some id =>
    rw [applyChange_child htable hrow]
    exact experiments_modify (experiment_pushInto table row _) d

/-- A pushed row comes to the rows of its collection that belong to its experiment, and to no
others. -/
theorem rows?_applyChange {table : Collection} (htable : table ≠ .experiments) (row : Document)
    {d : Dashboard} {view : ExperimentView} (hview : d.experiment? id = some view) :
    ∃ view', (d.applyChange ⟨table, .object row⟩).2.experiment? id = some view' ∧
      ∀ c, c = .transformations ∨ c = .tests → view'.rows? c =
        if c = table ∧ row.experiment? = some id then
          some (upsertRow row ((view.rows? c).getD []))
        else view.rows? c := by
  cases hrow : row.experiment? with
  | none =>
    rw [applyChange_orphan htable hrow]
    exact ⟨view, hview, fun c _ => by simp⟩
  | some owner =>
    rw [applyChange_child htable hrow]
    by_cases howner : owner = id
    · subst howner
      refine ⟨pushInto table row (d.isExperimentActive owner) view, ?_, fun c hc => ?_⟩
      · rw [experiment?_modify (id?_pushInto table row _), hview]
        rfl
      · rw [rows?_pushInto hc]
        simp
    · rw [experiment?_modify_of_ne (id?_pushInto table row _) (Ne.symm howner)]
      exact ⟨view, hview, fun c _ => by simp [howner]⟩

/-- Changes applied one after the other. -/
def applyChanges (d : Dashboard) (feeds : List ChangeFeed) : Dashboard :=
  feeds.foldl (fun d feed => (d.applyChange feed).2) d

end Dashboard

end TrialBoard
