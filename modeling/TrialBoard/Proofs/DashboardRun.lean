import TrialBoard.Proofs.Interleaving

/-!
# Runs of a dashboard

An operation leaves the views as they are, appends new ones, or edits one, the first of some
experiment (`Operation.Moves`). An edit keeps the experiment's id. So every view keeps its place and
its id for good, and only a listing can bring an id that is shown already.

An experiment is selected in three places: by a listing, by hand, and by its pushed row. In each it
is held at that moment, and by the above it is held ever after.
-/

namespace TrialBoard

/-! ## The first one of a kind -/

section

variable {α : Type} {p : α → Bool} {xs : List α} {i : Nat} {x : α}

/-- Whether an entry of a list is the first one that passes a test, and where it is. -/
structure IsFirst (p : α → Bool) (xs : List α) (i : Nat) (x : α) : Prop where
  place : xs[i]? = some x
  passes : p x = true
  first : ∀ j < i, ∀ y, xs[j]? = some y → p y = false

theorem exists_isFirst_iff : (∃ i, IsFirst p xs i x) ↔ xs.find? p = some x := by
  rw [List.find?_eq_some_iff_getElem]
  constructor
  · rintro ⟨i, hplace, hpasses, hfirst⟩
    obtain ⟨hi, hget⟩ := List.getElem?_eq_some_iff.1 hplace
    refine ⟨hpasses, i, hi, hget, fun j hj => ?_⟩
    rw [hfirst j hj _ (List.getElem?_eq_getElem (Nat.lt_trans hj hi))]
    rfl
  · rintro ⟨hpasses, i, hi, hget, hfirst⟩
    refine ⟨i, List.getElem?_eq_some_iff.2 ⟨hi, hget⟩, hpasses, fun j hj y hy => ?_⟩
    obtain ⟨hlt, rfl⟩ := List.getElem?_eq_some_iff.1 hy
    simpa using hfirst j hj

theorem IsFirst.lt_length (h : IsFirst p xs i x) : i < xs.length :=
  (List.getElem?_eq_some_iff.1 h.place).1

theorem IsFirst.mem (h : IsFirst p xs i x) : x ∈ xs := List.mem_of_getElem? h.place

theorem IsFirst.of_cons {y : α} (h : IsFirst p (y :: xs) (i + 1) x) :
    p y = false ∧ IsFirst p xs i x :=
  ⟨h.first 0 (Nat.zero_lt_succ i) y rfl,
    h.place, h.passes, fun j hj => h.first (j + 1) (Nat.succ_lt_succ hj)⟩

end

namespace ExperimentView

/-- The id that a view has selected in a collection. -/
def selectedIn? (view : ExperimentView) : Collection → Option String
  | .transformations => view.selectedTransformation?
  | .tests => view.selectedTest?
  | .analytics => none
  | .experiments => none

end ExperimentView

namespace Dashboard

open ExperimentView

/-! ## Operations -/

/-- An operation on a dashboard. -/
inductive Operation where
  | load (experiments : List Document)
  | select (id : String)
  | selectTransformation (id : String)
  | selectTest (id : String)
  | applyDetail (detail : Detail)
  | applyChange (feed : ChangeFeed)

/-- The dashboard after an operation. -/
def Operation.apply (d : Dashboard) : Operation → Dashboard
  | load experiments => (d.load experiments).2
  | select id => (d.select id).2
  | selectTransformation id => (d.selectTransformation id).2
  | selectTest id => (d.selectTest id).2
  | applyDetail detail => (d.applyDetail detail).2
  | applyChange feed => (d.applyChange feed).2

/-- Operations one after the other. -/
def run (d : Dashboard) (ops : List Operation) : Dashboard := ops.foldl Operation.apply d

theorem run_append (d : Dashboard) (ops later : List Operation) :
    d.run (ops ++ later) = (d.run ops).run later :=
  List.foldl_append

theorem run_concat (d : Dashboard) (ops : List Operation) (op : Operation) :
    d.run (ops ++ [op]) = op.apply (d.run ops) :=
  d.run_append ops [op]

variable {d : Dashboard} {id owner : String} {op : Operation} {i : Nat}
  {view : ExperimentView} {edit : ExperimentView → ExperimentView}

theorem experiment?_eq_some_iff :
    d.experiment? id = some view ↔ ∃ i, IsFirst (hasId id) d.views i view := exists_isFirst_iff.symm

theorem modifyFirst_of_isFirst {views : List ExperimentView}
    (h : IsFirst (hasId id) views i view) (f : ExperimentView → ExperimentView) :
    modifyFirst id f views = views.set i (f view) := by
  induction views generalizing i with
  | nil => cases h.place
  | cons v views ih =>
    unfold modifyFirst
    cases i with
    | zero =>
      obtain rfl := Option.some.inj h.place
      rw [if_pos h.passes]
      rfl
    | succ i =>
      obtain ⟨hv, htail⟩ := h.of_cons
      rw [hv, if_neg Bool.false_ne_true, ih htail]
      rfl

theorem modify_of_isFirst (h : IsFirst (hasId id) d.views i view)
    (f : ExperimentView → ExperimentView) :
    d.modify id f = (true, { d with views := d.views.set i (f view) }) := by
  rw [modify_of_some (experiment?_eq_some_iff.2 ⟨i, h⟩), modifyFirst_of_isFirst h]

theorem modify_of_none (h : d.experiment? id = none) (f : ExperimentView → ExperimentView) :
    d.modify id f = (false, d) := by
  simp [modify, h]

theorem selected?_modify (d : Dashboard) (id : String) (f : ExperimentView → ExperimentView) :
    (d.modify id f).2.selected? = d.selected? := by
  unfold modify
  split <;> rfl

theorem views_select (d : Dashboard) (id : String) : (d.select id).2.views = d.views := by
  unfold select
  split <;> rfl

theorem views_load (d : Dashboard) (rows : List Document) :
    (d.load rows).2.views = d.views ++ rows.map fun e => { experiment := e } := by
  unfold load
  dsimp only
  split
  · rfl
  · exact views_select _ _

theorem mem_ids_iff : some id ∈ d.ids ↔ ∃ view, d.experiment? id = some view := by
  rw [ids_eq, ← any_hasId_iff, ← isSome_experiment?, Option.isSome_iff_exists]

/-! ## What an operation does to the views -/

namespace Operation

/-- What an operation makes of the view of an experiment. -/
inductive Edits (d : Dashboard) (owner : String) :
    Operation → (ExperimentView → ExperimentView) → Prop
  | selectedTransformation {id : String} (h : d.selected? = some owner) :
    Edits d owner (.selectTransformation id) fun view =>
      { view with selectedTransformation? := some id }
  | selectedTest {id : String} (h : d.selected? = some owner) :
    Edits d owner (.selectTest id) fun view => { view with selectedTest? := some id }
  | filled {detail : Detail} (h : detail.experiment.id? = some owner) :
    Edits d owner (.applyDetail detail) (·.fillIn detail)
  | rewritten {row : Document} (h : row.id? = some owner) :
    Edits d owner (.applyChange ⟨.experiments, .object row⟩) fun view =>
      { view with experiment := row }
  | pushed {table : Collection} {row : Document} (htable : table ≠ .experiments)
    (h : Document.experiment? row = some owner) :
    Edits d owner (.applyChange ⟨table, .object row⟩)
      (pushInto table row (d.isExperimentActive owner))

/-- What an operation makes of the views. -/
inductive Moves (d : Dashboard) : Operation → List ExperimentView → Prop
  | kept {op : Operation} : Moves d op d.views
  | listed {rows : List Document} :
    Moves d (.load rows) (d.views ++ rows.map fun e => { experiment := e })
  | introduced {row : Document} (h : ∀ id, row.id? = some id → d.experiment? id = none) :
    Moves d (.applyChange ⟨.experiments, .object row⟩) (d.views ++ [{ experiment := row }])
  | edited {op : Operation} {owner : String} {i : Nat} {view : ExperimentView}
    {edit : ExperimentView → ExperimentView} (h : Edits d owner op edit)
    (hfirst : IsFirst (hasId owner) d.views i view) : Moves d op (d.views.set i (edit view))

theorem moves_modify (h : Edits d owner op edit) : Moves d op (d.modify owner edit).2.views := by
  cases hview : d.experiment? owner with
  | none =>
    rw [modify_of_none hview]
    exact .kept
  | some view =>
    obtain ⟨i, hfirst⟩ := experiment?_eq_some_iff.1 hview
    rw [modify_of_isFirst hfirst]
    exact .edited h hfirst

theorem moves_modifySelected (h : ∀ owner, d.selected? = some owner → Edits d owner op edit) :
    Moves d op (d.modifySelected edit).2.views := by
  unfold modifySelected
  cases hselected : d.selected? with
  | none => exact .kept
  | some owner => exact moves_modify (h owner hselected)

theorem moves_pushExperiment (d : Dashboard) (row : Document) :
    Moves d (.applyChange ⟨.experiments, .object row⟩) (d.pushExperiment row).views := by
  unfold pushExperiment
  cases hrow : row.id? with
  | none => exact .introduced fun id hid => nomatch hrow.symm.trans hid
  | some id =>
    cases hview : d.experiment? id with
    | none =>
      simp only [hview, Option.isSome_none, Bool.false_eq_true, if_false]
      refine .introduced fun id' hid => ?_
      obtain rfl := Option.some.inj (hrow.symm.trans hid)
      exact hview
    | some view =>
      obtain ⟨i, hfirst⟩ := experiment?_eq_some_iff.1 hview
      simp only [hview, Option.isSome_some, if_true]
      rw [modifyFirst_of_isFirst hfirst]
      exact .edited (.rewritten hrow) hfirst

/-- An operation leaves the views, appends to them, or edits the first one of an experiment. -/
theorem moves_apply (d : Dashboard) (op : Operation) : Moves d op (op.apply d).views := by
  cases op with
  | load rows => exact (d.views_load rows).symm ▸ .listed
  | select id => exact (d.views_select id).symm ▸ .kept
  | selectTransformation id => exact moves_modifySelected fun owner h => .selectedTransformation h
  | selectTest id => exact moves_modifySelected fun owner h => .selectedTest h
  | applyDetail detail =>
    change Moves d _ (d.applyDetail detail).2.views
    unfold Dashboard.applyDetail
    cases hid : detail.experiment.id? with
    | none => exact .kept
    | some owner => exact moves_modify (.filled hid)
  | applyChange feed =>
    change Moves d _ (d.applyChange feed).2.views
    obtain ⟨row, rfl, happly⟩ | ⟨table, row, owner, htable, rfl, hrow, happly⟩ | ⟨happly, -, -⟩ :=
      d.applyChange_cases feed
    · rw [happly]
      exact moves_pushExperiment d row
    · rw [happly]
      exact moves_modify (.pushed htable hrow)
    · rw [happly]
      exact .kept

/-- An edit keeps the id of the experiment. -/
theorem Edits.id?_eq (h : Edits d owner op edit) (hid : view.id? = some owner) :
    (edit view).id? = some owner := by
  cases h with
  | selectedTransformation | selectedTest => exact hid
  | filled => exact hid
  | rewritten hrow => exact hrow
  | pushed => rw [id?_pushInto, hid]

theorem Edits.ids_set (h : Edits d owner op edit) (hfirst : IsFirst (hasId owner) d.views i view) :
    (d.views.set i (edit view)).map ExperimentView.id? = d.ids := by
  have hid : view.id? = some owner := hasId_iff.1 hfirst.passes
  have hplace : d.ids[i]? = some (some owner) := by
    rw [ids, List.getElem?_map, hfirst.place, Option.map_some, hid]
  obtain ⟨hi, hget⟩ := List.getElem?_eq_some_iff.1 hplace
  rw [List.map_set, h.id?_eq hid, ← hget]
  exact List.set_getElem_self hi

/-- Views keep their places and their ids. -/
theorem Moves.ids {views : List ExperimentView} (h : Moves d op views) :
    d.ids <+: views.map ExperimentView.id? := by
  cases h with
  | kept => exact List.prefix_rfl
  | listed | introduced =>
    rw [List.map_append]
    exact List.prefix_append _ _
  | edited hedit hfirst => exact (hedit.ids_set hfirst).symm ▸ List.prefix_rfl

/-- All views but one stay as they are. -/
theorem Moves.others {views : List ExperimentView} (h : Moves d op views) :
    ∃ i, ∀ j < d.views.length, j ≠ i → views[j]? = d.views[j]? := by
  cases h with
  | kept => exact ⟨0, fun j _ _ => rfl⟩
  | listed | introduced => exact ⟨0, fun j hj _ => List.getElem?_append_left hj⟩
  | @edited _ _ i _ _ _ _ => exact ⟨i, fun j _ hj => List.getElem?_set_ne hj.symm⟩

/-- Only a listing brings an id that is shown already. -/
theorem Moves.shared {views : List ExperimentView} (h : Moves d op views)
    (hop : ∀ rows, op ≠ .load rows) {j : Nat} (hij : i < j)
    (hi : (views.map ExperimentView.id?)[i]? = some (some id))
    (hj : (views.map ExperimentView.id?)[j]? = some (some id)) : j < d.ids.length := by
  cases h with
  | kept => exact (List.getElem?_eq_some_iff.1 hj).1
  | listed => exact absurd rfl (hop _)
  | @introduced row hnew =>
    have hids : d.views.map ExperimentView.id? = d.ids := rfl
    rw [List.map_append, hids, List.map_singleton] at hi hj
    rcases Nat.lt_or_ge j d.ids.length with hlt | hlast
    · exact hlt
    · have hrow : row.id? = some id := by
        rw [List.getElem?_append_right hlast] at hj
        exact (List.mem_singleton.1 (List.mem_of_getElem? hj)).symm
      have hlength := (List.getElem?_eq_some_iff.1 hj).1
      rw [List.length_append, List.length_singleton] at hlength
      have hlt : i < d.ids.length := Nat.lt_of_lt_of_le hij (Nat.le_of_lt_succ hlength)
      rw [List.getElem?_append_left hlt] at hi
      obtain ⟨view, hview⟩ := mem_ids_iff.1 (List.mem_of_getElem? hi)
      exact nomatch (hnew id hrow).symm.trans hview
  | edited hedit hfirst =>
    rw [hedit.ids_set hfirst] at hj
    exact (List.getElem?_eq_some_iff.1 hj).1

end Operation

theorem ids_apply (d : Dashboard) (op : Operation) : d.ids <+: (op.apply d).ids :=
  (op.moves_apply d).ids

theorem ids_run (d : Dashboard) (ops : List Operation) : d.ids <+: (d.run ops).ids := by
  induction ops generalizing d with
  | nil => exact List.prefix_rfl
  | cons op ops ih => exact (d.ids_apply op).trans (ih (op.apply d))

/-! ## The selected experiment -/

/-- Whether the selected experiment is held. -/
def HoldsSelected (d : Dashboard) : Prop := ∀ id, d.selected? = some id → some id ∈ d.ids

theorem HoldsSelected.of_prefix {d' : Dashboard} (h : d.HoldsSelected) (hids : d.ids <+: d'.ids)
    (hselected : d'.selected? = d.selected?) : d'.HoldsSelected := fun id hid =>
  hids.mem (h id (hselected ▸ hid))

theorem HoldsSelected.select (h : d.HoldsSelected) (id : String) :
    (d.select id).2.HoldsSelected := by
  unfold Dashboard.select
  split
  · rename_i view hview
    intro id' hid
    obtain rfl := Option.some.inj hid
    exact mem_ids_iff.2 ⟨view, hview⟩
  · exact h

theorem selected?_modifySelected (d : Dashboard) (f : ExperimentView → ExperimentView) :
    (d.modifySelected f).2.selected? = d.selected? := by
  unfold modifySelected
  split
  · exact selected?_modify d _ f
  · rfl

theorem selected?_applyDetail (d : Dashboard) (detail : Detail) :
    (d.applyDetail detail).2.selected? = d.selected? := by
  unfold applyDetail
  split
  · exact selected?_modify d _ _
  · rfl

theorem selected?_pushExperiment (d : Dashboard) (row : Document) :
    (d.pushExperiment row).selected? = row.id? := by
  unfold pushExperiment
  cases row.id? with
  | none => rfl
  | some id =>
    dsimp only
    split <;> rfl

theorem holdsSelected_pushExperiment (d : Dashboard) (row : Document) :
    (d.pushExperiment row).HoldsSelected := by
  intro id hid
  rw [selected?_pushExperiment] at hid
  rw [ids_eq, ← any_hasId_iff, experiments_pushExperiment, any_hasId_upsertRow,
    Document.hasId_iff.2 hid, Bool.or_true]

/-- What an operation selects is held, and what was selected before is held ever after. -/
theorem HoldsSelected.apply (h : d.HoldsSelected) (op : Operation) :
    (op.apply d).HoldsSelected := by
  have hids := d.ids_apply op
  cases op with
  | load rows =>
    let held : Dashboard := { d with views := d.views ++ rows.map fun e => { experiment := e } }
    have hheld : held.HoldsSelected := h.of_prefix (Operation.Moves.listed).ids rfl
    change (d.load rows).2.HoldsSelected
    unfold Dashboard.load
    cases (mostRecent rows).bind Document.id? with
    | none => exact hheld
    | some id => exact hheld.select id
  | select id => exact h.select id
  | selectTransformation id | selectTest id =>
    exact h.of_prefix hids (d.selected?_modifySelected _)
  | applyDetail detail => exact h.of_prefix hids (d.selected?_applyDetail detail)
  | applyChange feed =>
    obtain ⟨row, -, happly⟩ | ⟨table, row, owner, -, -, -, happly⟩ | ⟨happly, -, -⟩ :=
      d.applyChange_cases feed
    · change (d.applyChange feed).2.HoldsSelected
      rw [happly]
      exact holdsSelected_pushExperiment d row
    · refine h.of_prefix hids ?_
      change (d.applyChange feed).2.selected? = _
      rw [happly, selected?_modify]
    · refine h.of_prefix hids ?_
      change (d.applyChange feed).2.selected? = _
      rw [happly]

theorem HoldsSelected.run (h : d.HoldsSelected) (ops : List Operation) :
    (d.run ops).HoldsSelected := by
  induction ops generalizing d with
  | nil => exact h
  | cons op ops ih => exact ih (h.apply op)

/-- After any operations the selected experiment is held, and its view is the first one with its id.
From then on every view keeps its place and its id, an operation changes one of them at most, and if
it is no listing it brings no id that is shown already. -/
theorem selected_experiment_is_held (ops : List Operation) :
    let d := empty.run ops
    (∀ id, d.selected? = some id →
      ∃ i view, IsFirst (hasId id) d.views i view ∧ d.selectedView? = some view) ∧
    (∀ later, d.ids <+: (d.run later).ids) ∧
    ∀ op : Operation, (∃ i, ∀ j < d.views.length, j ≠ i → (op.apply d).views[j]? = d.views[j]?) ∧
      ((∀ rows, op ≠ .load rows) → ∀ id (i j : Nat), i < j → (op.apply d).ids[i]? = some (some id) →
        (op.apply d).ids[j]? = some (some id) →
        d.ids[i]? = some (some id) ∧ d.ids[j]? = some (some id)) := by
  intro d
  refine ⟨fun id hid => ?_, d.ids_run, fun op => ⟨(op.moves_apply d).others, ?_⟩⟩
  · have hempty : empty.HoldsSelected := fun _ h => nomatch h
    obtain ⟨view, hview⟩ := mem_ids_iff.1 (hempty.run ops id hid)
    obtain ⟨i, hfirst⟩ := experiment?_eq_some_iff.1 hview
    refine ⟨i, view, hfirst, ?_⟩
    rw [selectedView?, hid]
    exact hview
  · intro hop id i j hij hi hj
    have hlt : j < d.ids.length := (op.moves_apply d).shared hop hij hi hj
    obtain ⟨new, hnew⟩ := d.ids_apply op
    rw [← hnew, List.getElem?_append_left (Nat.lt_trans hij hlt)] at hi
    rw [← hnew, List.getElem?_append_left hlt] at hj
    exact ⟨hi, hj⟩

/-- Two experiments of one id are listed with one that has none, a third is pushed, and the first id
is selected again. -/
theorem first_of_two_experiments_is_held :
    let row (id : String) (note : Bool) : Document := [("id", .string id), ("note", .bool note)]
    let ops : List Operation := [.load [row "a" false, row "a" true, [("note", .bool true)]],
      .applyChange ⟨.experiments, .object (row "b" true)⟩, .select "a"]
    let d := empty.run ops
    d.ids = [some "a", some "a", none, some "b"] ∧ d.selected? = some "a" ∧
    ∃ i view, IsFirst (hasId "a") d.views i view ∧ d.selectedView? = some view := by
  intro row ops d
  exact ⟨rfl, rfl, (selected_experiment_is_held ops).1 "a" rfl⟩

end Dashboard

end TrialBoard
