import TrialBoard.Proofs.DashboardRun

/-!
# What a pushed change touches

A change is ignored, and then nothing changes, or it is taken in. The row of an experiment touches
no rows that belong to any, and no selection among them. Any other row touches one view, the first
of its experiment, and in it the rows of its collection, where it comes in the place of the first
row with its id or at the end. It selects itself there only if its experiment is the selected one.
-/

namespace TrialBoard

open Document (hasId hasId_iff replaceOrAppend)
open ExperimentView (upsertRow)

/-! ## A row among others -/

section

variable {row r : Document} {rows : List Document} {id : String} {i : Nat}

/-- Whether rows are others with a row taken in at a place. -/
structure TakesPlace (row : Document) (rows : List Document) (i : Nat) (rows' : List Document) :
    Prop where
  placed : rows'[i]? = some row
  others : ∀ j, j ≠ i → rows'[j]? = rows[j]?
  /-- The row that was there, if any, is the first that had the id. -/
  replaced : ∀ r, rows[i]? = some r → ∃ id, row.id? = some id ∧ IsFirst (hasId id) rows i r
  grows : rows'.length = rows.length + 1 ↔
    ∀ id, row.id? = some id → ∀ r ∈ rows, r.id? ≠ some id

theorem replaceOrAppend_of_isFirst (h : IsFirst (hasId id) rows i r) (row : Document) :
    replaceOrAppend row id rows = rows.set i row := by
  induction rows generalizing i with
  | nil => cases h.place
  | cons r' rows ih =>
    unfold replaceOrAppend
    cases i with
    | zero =>
      obtain rfl := Option.some.inj h.place
      rw [if_pos h.passes]
      rfl
    | succ i =>
      obtain ⟨hr', htail⟩ := h.of_cons
      rw [hr', if_neg Bool.false_ne_true, ih htail]
      rfl

theorem takesPlace_of_isFirst (hid : row.id? = some id) (h : IsFirst (hasId id) rows i r) :
    TakesPlace row rows i (rows.set i row) where
  placed := List.getElem?_set_self h.lt_length
  others j hj := List.getElem?_set_ne hj.symm
  replaced r' hr' := by
    obtain rfl := Option.some.inj (h.place.symm.trans hr')
    exact ⟨id, hid, h⟩
  grows := by
    rw [List.length_set]
    refine ⟨fun hlength => absurd hlength (by omega), fun hnone => ?_⟩
    exact absurd (hasId_iff.1 h.passes) (hnone id hid r h.mem)

theorem takesPlace_append (hnew : ∀ id, row.id? = some id → ∀ r ∈ rows, r.id? ≠ some id) :
    TakesPlace row rows rows.length (rows ++ [row]) where
  placed := List.getElem?_concat_length
  others j hj := by
    rcases Nat.lt_or_gt_of_ne hj with hlt | hgt
    · exact List.getElem?_append_left hlt
    · rw [List.getElem?_eq_none (Nat.le_of_lt hgt), List.getElem?_eq_none]
      rw [List.length_append]
      exact hgt
  replaced r hr := by
    rw [List.getElem?_eq_none (Nat.le_refl _)] at hr
    cases hr
  grows := by simpa using hnew

/-- A pushed row replaces the first row with its id, or comes at the end. -/
theorem takesPlace_upsertRow (row : Document) (rows : List Document) :
    ∃ i, TakesPlace row rows i (upsertRow row rows) := by
  cases hid : row.id? with
  | none =>
    have hrows : upsertRow row rows = rows ++ [row] := by rw [upsertRow, hid]
    rw [hrows]
    exact ⟨_, takesPlace_append fun id h => absurd (h.symm.trans hid) (Option.some_ne_none id)⟩
  | some id =>
    rw [upsertRow_of_id hid]
    cases hfind : rows.find? (hasId id) with
    | none =>
      rw [replaceOrAppend_of_find?_eq_none hfind]
      refine ⟨_, takesPlace_append fun id' hid' r hr hsame => ?_⟩
      obtain rfl := Option.some.inj (hid.symm.trans hid')
      exact List.find?_eq_none.1 hfind r hr (hasId_iff.2 hsame)
    | some r =>
      obtain ⟨i, hfirst⟩ := exists_isFirst_iff.2 hfind
      rw [replaceOrAppend_of_isFirst hfirst]
      exact ⟨i, takesPlace_of_isFirst hid hfirst⟩

end

/-! ## A row in the view of its experiment -/

/-- Whether a view is another with a row taken in, of an experiment that is selected or is not. -/
structure ExperimentView.TakesIn (table : Collection) (row : Document) (isSelected : Prop)
    (view view' : ExperimentView) : Prop where
  experiment : view'.experiment = view.experiment
  /-- What is known of the other collections stays. -/
  others : ∀ c, c ≠ table → view'.known? c = view.known? c
  analytics : table = .analytics → view'.analytics? = some row
  rows : table = .transformations ∨ table = .tests → ∃ i rows, view'.rows? table = some rows ∧
    TakesPlace row ((view.rows? table).getD []) i rows
  selects : (table = .transformations ∨ table = .tests) → isSelected →
    view'.selectedIn? table = row.id?
  keepsSelected : ∀ c, ¬ (c = table ∧ isSelected) → view'.selectedIn? c = view.selectedIn? c

namespace Dashboard

open ExperimentView

variable {d : Dashboard} {feed : ChangeFeed} {table : Collection} {row : Document}
  {owner : String}

theorem takesIn_pushInto (htable : table ≠ .experiments) (row : Document) (select : Bool)
    (view : ExperimentView) :
    view.TakesIn table row (select = true) (pushInto table row select view) where
  experiment := experiment_pushInto table row select view
  others c hc := by rw [known?_pushInto, if_neg hc.symm]
  analytics h := by rw [h]; rfl
  rows h := by
    obtain ⟨i, hplace⟩ := takesPlace_upsertRow row ((view.rows? table).getD [])
    exact ⟨i, _, by rw [rows?_pushInto h, if_pos rfl], hplace⟩
  selects h hselect := by
    rw [hselect]
    rcases h with rfl | rfl <;> rfl
  keepsSelected c hc := by
    by_cases hsame : c = table
    · have hselect : select = false := Bool.eq_false_iff.2 fun h => hc ⟨hsame, h⟩
      rw [hselect]
      cases c <;> cases table <;> rfl
    · cases c <;> cases table <;> first | rfl | exact absurd rfl hsame

/-- Whether a change is ignored: its value is no object, or it belongs to no experiment that is
held. -/
def Ignores (d : Dashboard) (feed : ChangeFeed) : Prop :=
  (∀ row, feed.value ≠ .object row) ∨ feed.table ≠ .experiments ∧
    ∀ row owner, feed.value = .object row → Document.experiment? row = some owner →
      ∀ view ∈ d.views, view.id? ≠ some owner

/-- A change is the row of an experiment, or goes into the first view of one, or is ignored. -/
theorem applyChange_outcome (d : Dashboard) (feed : ChangeFeed) :
    (∃ row, feed = ⟨.experiments, .object row⟩ ∧
      d.applyChange feed = (true, d.pushExperiment row)) ∨
    (∃ table row owner i view, table ≠ .experiments ∧ feed = ⟨table, .object row⟩ ∧
      Document.experiment? row = some owner ∧ IsFirst (ExperimentView.hasId owner) d.views i view ∧
      d.applyChange feed = (true, { d with
        views := d.views.set i (pushInto table row (d.isExperimentActive owner) view) })) ∨
    (d.Ignores feed ∧ d.applyChange feed = (false, d)) := by
  obtain ⟨table, value⟩ := feed
  cases hvalue : value.asObject? with
  | none =>
    have hobject : ∀ row, value ≠ .object row := by
      rintro row rfl
      cases hvalue
    refine .inr (.inr ⟨.inl hobject, ?_⟩)
    cases value <;> cases table <;> first | rfl | cases hvalue
  | some row =>
    obtain rfl : value = .object row := by
      cases value <;> first | cases hvalue; rfl | cases hvalue
    by_cases htable : table = .experiments
    · subst htable
      exact .inl ⟨row, rfl, rfl⟩
    · have hignores : (∀ owner, Document.experiment? row = some owner →
          d.experiment? owner = none) → d.Ignores ⟨table, .object row⟩ := by
        refine fun hnone => .inr ⟨htable, fun row' owner hrow howner view hview hid => ?_⟩
        obtain rfl := Json.object.inj hrow
        exact List.find?_eq_none.1 (hnone owner howner) view hview (ExperimentView.hasId_iff.2 hid)
      cases howner : Document.experiment? row with
      | none =>
        refine .inr (.inr ⟨hignores fun _ h => (nomatch howner.symm.trans h), ?_⟩)
        exact applyChange_orphan htable howner d
      | some owner =>
        rw [applyChange_child htable howner]
        cases hview : d.experiment? owner with
        | none =>
          rw [modify_of_none hview]
          refine .inr (.inr ⟨hignores fun owner' h => ?_, rfl⟩)
          obtain rfl := Option.some.inj (howner.symm.trans h)
          exact hview
        | some view =>
          obtain ⟨i, hfirst⟩ := experiment?_eq_some_iff.1 hview
          rw [modify_of_isFirst hfirst]
          exact .inr (.inl ⟨table, row, owner, i, view, htable, rfl, howner, hfirst, rfl⟩)

theorem not_ignores_experiment (d : Dashboard) (row : Document) :
    ¬ d.Ignores ⟨.experiments, .object row⟩ := by
  rintro (hobject | ⟨htable, -⟩)
  · exact hobject row rfl
  · exact htable rfl

theorem not_ignores_of_isFirst {i : Nat} {view : ExperimentView}
    (howner : Document.experiment? row = some owner)
    (hfirst : IsFirst (ExperimentView.hasId owner) d.views i view) :
    ¬ d.Ignores ⟨table, .object row⟩ := by
  rintro (hobject | ⟨-, hnone⟩)
  · exact hobject row rfl
  · exact hnone row owner rfl howner view hfirst.mem (ExperimentView.hasId_iff.1 hfirst.passes)

theorem applyChange_of_ignores (h : d.Ignores feed) : d.applyChange feed = (false, d) := by
  obtain ⟨row, rfl, -⟩ | ⟨table, row, owner, i, view, -, rfl, howner, hfirst, -⟩ | ⟨-, happly⟩ :=
    d.applyChange_outcome feed
  · exact absurd h (d.not_ignores_experiment row)
  · exact absurd h (not_ignores_of_isFirst howner hfirst)
  · exact happly

theorem applyChange_eq_false_iff : (d.applyChange feed).1 = false ↔ d.Ignores feed := by
  refine ⟨fun h => ?_, fun h => by rw [applyChange_of_ignores h]⟩
  obtain ⟨row, -, happly⟩ | ⟨table, row, owner, i, view, -, -, -, -, happly⟩ | ⟨hignores, -⟩ :=
    d.applyChange_outcome feed
  · exact nomatch (congrArg Prod.fst happly).symm.trans h
  · exact nomatch (congrArg Prod.fst happly).symm.trans h
  · exact hignores

/-- The row of an experiment changes nothing of a view but its row, and a new view knows of none
that belong to it. -/
theorem views_pushExperiment (d : Dashboard) (row : Document) (i : Nat) (view : ExperimentView) :
    (d.views[i]? = some view →
      ∃ row', (d.pushExperiment row).views[i]? = some { view with experiment := row' }) ∧
    (d.views[i]? = none → (d.pushExperiment row).views[i]? = some view →
      ∃ row', view = { experiment := row' }) := by
  have hmoves := Operation.moves_pushExperiment d row
  generalize (d.pushExperiment row).views = views at hmoves ⊢
  cases hmoves with
  | kept => exact ⟨fun hview => ⟨_, hview⟩, fun hnone hview => nomatch hnone.symm.trans hview⟩
  | introduced =>
    constructor
    · intro hview
      have hi := (List.getElem?_eq_some_iff.1 hview).1
      exact ⟨_, (List.getElem?_append_left hi).trans hview⟩
    · intro hnone hview
      rw [List.getElem?_append_right (List.getElem?_eq_none_iff.1 hnone)] at hview
      exact ⟨row, List.mem_singleton.1 (List.mem_of_getElem? hview)⟩
  | @edited _ _ j held _ hedit hfirst =>
    cases hedit with
    | pushed htable => exact absurd rfl htable
    | rewritten =>
      constructor
      · intro hview
        by_cases hi : i = j
        · subst hi
          obtain rfl := Option.some.inj (hfirst.place.symm.trans hview)
          exact ⟨row, List.getElem?_set_self (List.getElem?_eq_some_iff.1 hview).1⟩
        · exact ⟨_, (List.getElem?_set_ne (Ne.symm hi)).trans hview⟩
      · intro hnone hview
        rw [List.getElem?_eq_none (by simpa using hnone)] at hview
        cases hview

/-- A row that belongs to an experiment other than the selected one leaves what is selected. -/
theorem selectedView?_applyChange (htable : feed.table ≠ .experiments)
    (hother : ∀ row owner, feed.value = .object row → Document.experiment? row = some owner →
      d.selected? ≠ some owner) :
    (d.applyChange feed).2.selected? = d.selected? ∧
      (d.applyChange feed).2.selectedView? = d.selectedView? := by
  obtain ⟨row, rfl, -⟩ | ⟨table, row, owner, hne, rfl, howner, happly⟩ | ⟨happly, -, -⟩ :=
    d.applyChange_cases feed
  · exact absurd rfl htable
  · have hselected := hother row owner rfl howner
    rw [happly, selectedView?, selected?_modify]
    refine ⟨rfl, ?_⟩
    cases h : d.selected? with
    | none => simp [selectedView?, h]
    | some id =>
      have hid : id ≠ owner := fun heq => hselected (heq ▸ h)
      rw [selectedView?, h]
      exact experiment?_modify_of_ne (id?_pushInto table row _) hid d
  · rw [happly]
    exact ⟨rfl, rfl⟩

/-- A change that is ignored changes nothing, and it is ignored just when its value is no object, or
it is a row that belongs to no experiment that is held. A row that is taken in and belongs to one
changes the first view of that experiment, and nothing else: in it the rows of its collection, and
which of them is selected just if the experiment is. A row of an experiment leaves all that is known
of rows that belong to any, and what is selected among them. So what is selected does not change by
a row of an experiment that is not. -/
theorem change_touches_only_what_it_names (d : Dashboard) (feed : ChangeFeed) :
    let isTaken := (d.applyChange feed).1
    let d' := (d.applyChange feed).2
    (isTaken = false → d' = d) ∧
    (isTaken = false ↔ d.Ignores feed) ∧
    (isTaken = true → feed.table ≠ .experiments → ∃ row owner i view view',
      feed.value = .object row ∧ Document.experiment? row = some owner ∧
      IsFirst (ExperimentView.hasId owner) d.views i view ∧
      d' = { d with views := d.views.set i view' } ∧
      view.TakesIn feed.table row (d.selected? = some owner) view') ∧
    (isTaken = true → feed.table = .experiments → ∀ (i : Nat) (view : ExperimentView),
      (d.views[i]? = some view → ∃ row, d'.views[i]? = some { view with experiment := row }) ∧
      (d.views[i]? = none → d'.views[i]? = some view → ∃ row, view = { experiment := row })) ∧
    (feed.table ≠ .experiments →
      (∀ row owner, feed.value = .object row → Document.experiment? row = some owner →
        d.selected? ≠ some owner) →
      ∀ id, d'.isExperimentActive id = d.isExperimentActive id ∧
        d'.isTransformationActive id = d.isTransformationActive id ∧
        d'.isTestActive id = d.isTestActive id) := by
  intro isTaken d'
  refine ⟨fun h => ?_, applyChange_eq_false_iff, fun htaken htable => ?_,
    fun htaken htable i view => ?_, fun htable hother id => ?_⟩
  · exact congrArg Prod.snd (applyChange_of_ignores (applyChange_eq_false_iff.1 h))
  · obtain ⟨row, rfl, -⟩ | ⟨table, row, owner, i, view, -, rfl, howner, hfirst, happly⟩ |
      ⟨hignores, -⟩ := d.applyChange_outcome feed
    · exact absurd rfl htable
    · refine ⟨row, owner, i, view, _, rfl, howner, hfirst, congrArg Prod.snd happly, ?_⟩
      have htakes := takesIn_pushInto htable row (d.isExperimentActive owner) view
      rwa [isExperimentActive, beq_iff_eq] at htakes
    · exact nomatch (applyChange_eq_false_iff.2 hignores).symm.trans htaken
  · obtain ⟨row, rfl, happly⟩ | ⟨table, row, owner, i, view, hne, rfl, -⟩ | ⟨hignores, -⟩ :=
      d.applyChange_outcome feed
    · have hviews : d' = d.pushExperiment row := congrArg Prod.snd happly
      rw [hviews]
      exact d.views_pushExperiment row i view
    · exact absurd htable hne
    · exact nomatch (applyChange_eq_false_iff.2 hignores).symm.trans htaken
  · obtain ⟨hselected, hview⟩ := selectedView?_applyChange htable hother
    refine ⟨?_, ?_, ?_⟩
    · rw [isExperimentActive, hselected, isExperimentActive]
    · rw [isTransformationActive, hview, isTransformationActive]
    · rw [isTestActive, hview, isTestActive]

/-- A test that is held is pushed again, for the first of two experiments of one id, while another
is selected. -/
theorem test_of_other_experiment_taken_in :
    let row (id : String) (note : Bool) : Document :=
      [("experiment_id", .string "e"), ("id", .string id), ("note", .bool note)]
    let first : ExperimentView :=
      { experiment := [("id", .string "e")], selectedTest? := some "y"
        tests? := some [row "x" false, row "y" false, row "x" false] }
    let second : ExperimentView := { experiment := [("id", .string "e")] }
    let selected : ExperimentView := { experiment := [("id", .string "f")] }
    let d : Dashboard := { views := [selected, first, second], selected? := some "f" }
    let feed : ChangeFeed := ⟨.tests, .object (row "x" true)⟩
    let d' := (d.applyChange feed).2
    ((d.applyChange feed).1 = true ∧ feed.table ≠ .experiments ∧
      (∀ row owner, feed.value = .object row → Document.experiment? row = some owner →
        d.selected? ≠ some owner)) ∧
    d'.views = [selected,
      { first with tests? := some [row "x" true, row "y" false, row "x" false] }, second] ∧
    (∃ row owner i view view', feed.value = .object row ∧
      Document.experiment? row = some owner ∧
      IsFirst (ExperimentView.hasId owner) d.views i view ∧
      d' = { d with views := d.views.set i view' } ∧
      view.TakesIn feed.table row (d.selected? = some owner) view') ∧
    ∀ id, d'.isExperimentActive id = d.isExperimentActive id ∧
      d'.isTransformationActive id = d.isTransformationActive id ∧
      d'.isTestActive id = d.isTestActive id := by
  intro row first second selected d feed d'
  have htable : feed.table ≠ .experiments := by decide
  have hother : ∀ row owner, feed.value = .object row → Document.experiment? row = some owner →
      d.selected? ≠ some owner := by
    intro row' owner hrow howner hselected
    obtain rfl := Json.object.inj hrow
    have heq : "f" = "e" := Option.some.inj (hselected.trans howner.symm)
    exact absurd heq (by decide)
  obtain ⟨-, -, htaken, -, hkept⟩ := change_touches_only_what_it_names d feed
  exact ⟨⟨rfl, htable, hother⟩, rfl, htaken rfl htable, hkept htable hother⟩

end Dashboard

end TrialBoard
