import TrialBoard.Proofs.PushedChange

/-!
# Selected transformations and tests

A view keeps the ids of its selected transformation and test apart from its rows. A pushed row and a
fetched detail select a row that the view holds then, and rows are never taken away, so what they
select is found ever after. An id selected by hand is not looked up. `Dangles` says that it is the
id of no row held.

So a selection that finds no row was made by hand and named a row that was not held, and every
selection finds its row at any time of a run just when each one made by hand names a row that is
held at that moment.
-/

namespace TrialBoard

theorem moreRecent_eq (current doc : Document) :
    moreRecent current doc = doc ∨ moreRecent current doc = current := by
  unfold moreRecent
  split
  · exact .inl rfl
  · exact .inr rfl

theorem foldl_moreRecent_mem (rows : List Document) (first : Document) :
    rows.foldl moreRecent first ∈ first :: rows := by
  induction rows generalizing first with
  | nil => exact List.mem_cons_self
  | cons next rows ih =>
    rw [List.foldl_cons]
    rcases moreRecent_eq first next with h | h
    · rw [h]
      exact List.mem_cons_of_mem _ (ih next)
    · rw [h]
      exact ((List.sublist_cons_self next rows).cons_cons first).mem (ih first)

theorem mostRecent_mem {rows : List Document} {row : Document} (h : mostRecent rows = some row) :
    row ∈ rows := by
  cases rows with
  | nil => cases h
  | cons first rows =>
    obtain rfl := Option.some.inj h
    exact foldl_moreRecent_mem rows first

namespace ExperimentView

/-- Whether a view holds a row with an id in a collection. -/
def HoldsRow (view : ExperimentView) (c : Collection) (id : String) : Prop :=
  ∃ row ∈ (view.rows? c).getD [], row.id? = some id

/-- Whether the id that a view has selected in a collection is that of no row it holds. -/
def Dangles (view : ExperimentView) (c : Collection) (id : String) : Prop :=
  view.selectedIn? c = some id ∧ ¬ view.HoldsRow c id

/-- Whether the selected transformation and test are found, if ids of them are selected. -/
def FindsSelections (view : ExperimentView) : Prop :=
  (∀ id, view.selectedTransformation? = some id → ∃ row ∈ view.transformations?.getD [],
    view.transformationRow? = some row ∧ row.id? = some id) ∧
  (∀ id, view.selectedTest? = some id → ∃ row ∈ view.tests?.getD [],
    view.testRow? = some row ∧ row.id? = some id)

variable {view : ExperimentView} {c : Collection} {id : String}

theorem holdsRow_iff :
    view.HoldsRow c id ↔ ((view.rows? c).getD []).any (Document.hasId id) = true := by
  simp only [HoldsRow, List.any_eq_true, Document.hasId_iff]

/-- A selection that is kept and finds no row found none before, unless rows went away. -/
theorem Dangles.of_selectedIn?_eq {view' : ExperimentView} (h : view'.Dangles c id)
    (hselected : view'.selectedIn? c = view.selectedIn? c)
    (hrows : view.HoldsRow c id → view'.HoldsRow c id) : view.Dangles c id :=
  ⟨hselected ▸ h.1, fun hheld => h.2 (hrows hheld)⟩

theorem eq_or_of_selectedIn? (h : view.selectedIn? c = some id) :
    c = .transformations ∨ c = .tests := by
  cases c with
  | transformations => exact .inl rfl
  | tests => exact .inr rfl
  | analytics | experiments => cases h

theorem exists_rowOf?_iff {rows? : Option (List Document)} :
    (∃ row ∈ rows?.getD [], rowOf? rows? (some id) = some row ∧ row.id? = some id) ↔
      ∃ row ∈ rows?.getD [], row.id? = some id := by
  refine ⟨fun ⟨row, hrow, _, hid⟩ => ⟨row, hrow, hid⟩, fun ⟨row, hrow, hid⟩ => ?_⟩
  cases rows? with
  | none => cases hrow
  | some rows =>
    have hsome : (rows.find? (Document.hasId id)).isSome = true :=
      List.find?_isSome.2 ⟨row, hrow, Document.hasId_iff.2 hid⟩
    obtain ⟨found, hfound⟩ := Option.isSome_iff_exists.1 hsome
    exact ⟨found, List.mem_of_find?_eq_some hfound, hfound,
      Document.hasId_iff.1 (List.find?_some hfound)⟩

theorem findsSelections_iff : view.FindsSelections ↔ ∀ c id, ¬ view.Dangles c id := by
  have hfinds : ∀ (rows? : Option (List Document)) (selected? : Option String),
      (∀ id, selected? = some id → ∃ row ∈ rows?.getD [],
        rowOf? rows? selected? = some row ∧ row.id? = some id) ↔
      ∀ id, ¬ (selected? = some id ∧ ¬ ∃ row ∈ rows?.getD [], row.id? = some id) := by
    intro rows? selected?
    refine forall_congr' fun id => ?_
    rw [not_and, Classical.not_not]
    refine forall_congr' fun hid => ?_
    rw [hid, exists_rowOf?_iff]
  have hboth : view.FindsSelections ↔
      (∀ id, ¬ view.Dangles .transformations id) ∧ ∀ id, ¬ view.Dangles .tests id :=
    and_congr (hfinds _ _) (hfinds _ _)
  rw [hboth]
  refine ⟨fun h c => ?_, fun h => ⟨h .transformations, h .tests⟩⟩
  cases c with
  | transformations => exact h.1
  | tests => exact h.2
  | analytics | experiments => exact fun id hdangles => nomatch hdangles.1

theorem FindsSelections.holdsRow (h : view.FindsSelections) (hid : view.selectedIn? c = some id) :
    view.HoldsRow c id :=
  Classical.not_not.1 fun hnone => findsSelections_iff.1 h c id ⟨hid, hnone⟩

end ExperimentView

namespace Dashboard

open ExperimentView

variable {d : Dashboard} {op : Operation} {owner id : String} {c : Collection} {i : Nat}
  {view : ExperimentView} {edit : ExperimentView → ExperimentView}

namespace Operation

/-- The id that is selected by hand, and its collection. -/
def named? : Operation → Option (Collection × String)
  | selectTransformation id => some (.transformations, id)
  | selectTest id => some (.tests, id)
  | load _ | select _ | applyDetail _ | applyChange _ => none

/-- Whether what is selected by hand is the id of a row that the selected view holds. -/
def NamesHeld (d : Dashboard) (op : Operation) : Prop :=
  ∀ c id, op.named? = some (c, id) → ∀ view, d.selectedView? = some view → view.HoldsRow c id

/-- Whether what is selected by hand is an id of which the selected view, at a place, holds no
row. -/
def NamesUnheld (d : Dashboard) (op : Operation) (i : Nat) (c : Collection) (id : String) : Prop :=
  op.named? = some (c, id) ∧ ∃ owner view, d.selected? = some owner ∧
    IsFirst (hasId owner) d.views i view ∧ ¬ view.HoldsRow c id

variable {d : Dashboard} {op : Operation} {owner id : String} {c : Collection}
  {edit : ExperimentView → ExperimentView}

theorem exists_row_of_latestId? {rows : List Document} (h : latestId? (some rows) = some id) :
    ∃ row ∈ rows, row.id? = some id := by
  obtain ⟨row, hrow, hid⟩ := Option.bind_eq_some_iff.1 (show (mostRecent rows).bind _ = _ from h)
  exact ⟨row, mostRecent_mem hrow, hid⟩

theorem holdsRow_pushInto {table : Collection} (hc : c = .transformations ∨ c = .tests)
    (row : Document) (select : Bool) (view : ExperimentView) (id : String) :
    (pushInto table row select view).HoldsRow c id ↔
      view.HoldsRow c id ∨ c = table ∧ row.id? = some id := by
  rw [holdsRow_iff, holdsRow_iff, rows?_pushInto hc]
  split
  · rename_i hsame
    rw [Option.getD_some, any_hasId_upsertRow, Bool.or_eq_true, Document.hasId_iff]
    simp only [hsame, true_and]
  · rename_i hother
    simp only [hother, false_and, or_false]

/-- A selection that finds no row after one was pushed found none before. -/
theorem dangles_of_pushInto {table : Collection} {row : Document} {select : Bool}
    (htable : table ≠ .experiments)
    (h : (pushInto table row select view).Dangles c id) : view.Dangles c id := by
  have hc : c = .transformations ∨ c = .tests := eq_or_of_selectedIn? h.1
  have htakes := takesIn_pushInto htable row select view
  by_cases hselects : c = table ∧ select = true
  · obtain ⟨rfl, hselect⟩ := hselects
    have hid : row.id? = some id := (htakes.selects hc hselect).symm.trans h.1
    exact absurd ((holdsRow_pushInto hc row select view id).2 (.inr ⟨rfl, hid⟩)) h.2
  · exact h.of_selectedIn?_eq (htakes.keepsSelected c hselects) fun hheld =>
      (holdsRow_pushInto hc row select view id).2 (.inl hheld)

/-- An edit that leaves a selection without its row selects by hand, or leaves it as it was. -/
theorem Edits.dangles (h : Edits d owner op edit) (hdangles : (edit view).Dangles c id) :
    view.Dangles c id ∨
      op.named? = some (c, id) ∧ d.selected? = some owner ∧ ¬ view.HoldsRow c id := by
  cases h with
  | pushed htable => exact .inl (dangles_of_pushInto htable hdangles)
  | filled =>
    rcases eq_or_of_selectedIn? hdangles.1 with rfl | rfl <;>
      exact absurd (exists_row_of_latestId? hdangles.1) hdangles.2
  | rewritten =>
    rcases eq_or_of_selectedIn? hdangles.1 with rfl | rfl <;> exact .inl hdangles
  | selectedTransformation howner =>
    rcases eq_or_of_selectedIn? hdangles.1 with rfl | rfl
    · obtain rfl := Option.some.inj hdangles.1
      exact .inr ⟨rfl, howner, hdangles.2⟩
    · exact .inl hdangles
  | selectedTest howner =>
    rcases eq_or_of_selectedIn? hdangles.1 with rfl | rfl
    · exact .inl hdangles
    · obtain rfl := Option.some.inj hdangles.1
      exact .inr ⟨rfl, howner, hdangles.2⟩

/-- A selection by hand is kept in the selected view. -/
theorem exists_view_of_named? (hnamed : op.named? = some (c, id))
    (hselected : d.selected? = some owner) (hfirst : IsFirst (hasId owner) d.views i view) :
    ∃ view', (op.apply d).views[i]? = some view' ∧ view'.selectedIn? c = some id ∧
      view'.rows? c = view.rows? c := by
  have hplace : ∀ f : ExperimentView → ExperimentView,
      (d.modifySelected f).2.views[i]? = some (f view) := by
    intro f
    have hmodify : d.modifySelected f = d.modify owner f := by rw [modifySelected, hselected]
    rw [hmodify, modify_of_isFirst hfirst]
    exact List.getElem?_set_self hfirst.lt_length
  cases op with
  | selectTransformation id' =>
    obtain ⟨rfl, rfl⟩ := Prod.mk.inj (Option.some.inj hnamed)
    exact ⟨_, hplace _, rfl, rfl⟩
  | selectTest id' =>
    obtain ⟨rfl, rfl⟩ := Prod.mk.inj (Option.some.inj hnamed)
    exact ⟨_, hplace _, rfl, rfl⟩
  | load | select | applyDetail | applyChange => cases hnamed

end Operation

theorem selectedView?_eq_some_iff :
    d.selectedView? = some view ↔
      ∃ owner i, d.selected? = some owner ∧ IsFirst (hasId owner) d.views i view := by
  rw [selectedView?, Option.bind_eq_some_iff]
  exact exists_congr fun owner => by rw [experiment?_eq_some_iff, exists_and_left]

/-- A selection that finds no row after an operation found none before, or it is the operation that
named a row that is not held. -/
theorem dangles_apply {view' : ExperimentView} (hview' : (op.apply d).views[i]? = some view')
    (hdangles : view'.Dangles c id) :
    (∃ view, d.views[i]? = some view ∧ view.Dangles c id) ∨ op.NamesUnheld d i c id := by
  have hmoves := op.moves_apply d
  generalize (op.apply d).views = views at hmoves hview'
  -- A new view has nothing selected.
  have hold : ∀ rows : List Document,
      (d.views ++ rows.map fun e => { experiment := e })[i]? = some view' →
      ∃ view, d.views[i]? = some view ∧ view.Dangles c id := by
    intro rows hview'
    rcases Nat.lt_or_ge i d.views.length with hlt | hge
    · exact ⟨view', (List.getElem?_append_left hlt).symm.trans hview', hdangles⟩
    · rw [List.getElem?_append_right hge] at hview'
      obtain ⟨row, -, rfl⟩ := List.mem_map.1 (List.mem_of_getElem? hview')
      rcases eq_or_of_selectedIn? hdangles.1 with rfl | rfl <;> cases hdangles.1
  cases hmoves with
  | kept => exact .inl ⟨view', hview', hdangles⟩
  | listed => exact .inl (hold _ hview')
  | @introduced row => exact .inl (hold [row] hview')
  | @edited _ owner j view edit hedit hfirst =>
    by_cases hi : i = j
    · subst hi
      rw [List.getElem?_set_self hfirst.lt_length] at hview'
      obtain rfl := Option.some.inj hview'
      rcases hedit.dangles hdangles with hbefore | ⟨hnamed, hselected, hnone⟩
      · exact .inl ⟨view, hfirst.place, hbefore⟩
      · exact .inr ⟨hnamed, owner, view, hselected, hfirst, hnone⟩
    · rw [List.getElem?_set_ne (Ne.symm hi)] at hview'
      exact .inl ⟨view', hview', hdangles⟩

theorem dangles_run {ops : List Operation} {view' : ExperimentView}
    (hview' : (d.run ops).views[i]? = some view') (hdangles : view'.Dangles c id) :
    (∃ view, d.views[i]? = some view ∧ view.Dangles c id) ∨
      ∃ (n : Nat) (op : Operation), ops[n]? = some op ∧
        op.NamesUnheld (d.run (ops.take n)) i c id := by
  induction ops generalizing d with
  | nil => exact .inl ⟨view', hview', hdangles⟩
  | cons op ops ih =>
    rcases ih (d := op.apply d) hview' with ⟨view, hview, hbefore⟩ | ⟨n, later, hlater, hnames⟩
    · rcases dangles_apply hview hbefore with hold | hnames
      · exact .inl hold
      · exact .inr ⟨0, op, rfl, hnames⟩
    · exact .inr ⟨n + 1, later, hlater, hnames⟩

/-- What is active is a row that the selected view holds, if its selections are found. -/
theorem holdsRow_of_active (h : ∀ view ∈ d.views, view.FindsSelections) (id : String) :
    (d.isTransformationActive id = true →
      ∃ view, d.selectedView? = some view ∧ view.HoldsRow .transformations id) ∧
    (d.isTestActive id = true → ∃ view, d.selectedView? = some view ∧ view.HoldsRow .tests id) := by
  have hheld : ∀ c, d.selectedView?.bind (selectedIn? · c) = some id →
      ∃ view, d.selectedView? = some view ∧ view.HoldsRow c id := by
    intro c hselected
    obtain ⟨view, hview, hid⟩ := Option.bind_eq_some_iff.1 hselected
    obtain ⟨owner, i, -, hfirst⟩ := selectedView?_eq_some_iff.1 hview
    exact ⟨view, hview, (h view hfirst.mem).holdsRow hid⟩
  exact ⟨fun hactive => hheld .transformations (beq_iff_eq.1 hactive),
    fun hactive => hheld .tests (beq_iff_eq.1 hactive)⟩

/-- All selections of transformations and tests find their rows, at any time of a run, just when
each one made by hand names a row that the selected view holds then. In any run a selection that
finds no row was made by hand in that very view, and named a row that was not held. Where all find
their rows, what is active is a row that the selected view holds. -/
theorem selections_found_iff_namesHeld (ops : List Operation) :
    ((∀ n : Nat, ∀ view ∈ (empty.run (ops.take n)).views, view.FindsSelections) ↔
      ∀ (n : Nat) (op : Operation), ops[n]? = some op → op.NamesHeld (empty.run (ops.take n))) ∧
    (∀ (i : Nat) (view : ExperimentView) (c : Collection) (id : String),
      (empty.run ops).views[i]? = some view → view.Dangles c id →
      ∃ (n : Nat) (op : Operation), ops[n]? = some op ∧
        op.NamesUnheld (empty.run (ops.take n)) i c id) ∧
    ((∀ view ∈ (empty.run ops).views, view.FindsSelections) → ∀ id,
      ((empty.run ops).isTransformationActive id = true → ∃ view,
        (empty.run ops).selectedView? = some view ∧ view.HoldsRow .transformations id) ∧
      ((empty.run ops).isTestActive id = true → ∃ view,
        (empty.run ops).selectedView? = some view ∧ view.HoldsRow .tests id)) := by
  have hrun : ∀ (ops : List Operation) (i : Nat) (view : ExperimentView) (c : Collection)
      (id : String), (empty.run ops).views[i]? = some view → view.Dangles c id →
      ∃ (n : Nat) (op : Operation), ops[n]? = some op ∧
        op.NamesUnheld (empty.run (ops.take n)) i c id := by
    intro ops i view c id hview hdangles
    rcases dangles_run hview hdangles with ⟨_, hnone, -⟩ | hnames
    · cases hnone
    · exact hnames
  refine ⟨⟨fun h n op hop => ?_, fun h n view hview => ?_⟩, hrun ops, holdsRow_of_active⟩
  · intro c id hnamed view hview
    obtain ⟨owner, i, hselected, hfirst⟩ := selectedView?_eq_some_iff.1 hview
    obtain ⟨view', hview', hid, hrows⟩ := Operation.exists_view_of_named? hnamed hselected hfirst
    have hnext : ops.take (n + 1) = ops.take n ++ [op] := by
      rw [List.take_add_one, hop]
      rfl
    rw [← run_concat, ← hnext] at hview'
    have hheld := (h _ view' (List.mem_of_getElem? hview')).holdsRow hid
    rwa [HoldsRow, hrows] at hheld
  · refine findsSelections_iff.2 fun c id hdangles => ?_
    obtain ⟨i, hi⟩ := List.getElem?_of_mem hview
    obtain ⟨m, op, hop, hnamed, owner, held, hselected, hfirst, hnone⟩ :=
      hrun (ops.take n) i view c id hi hdangles
    have hm : m < n := by
      have hlength := (List.getElem?_eq_some_iff.1 hop).1
      rw [List.length_take] at hlength
      omega
    rw [List.getElem?_take_of_lt hm] at hop
    rw [List.take_take, Nat.min_eq_left (Nat.le_of_lt hm)] at hselected hfirst
    exact hnone (h m op hop c id hnamed held
      (selectedView?_eq_some_iff.2 ⟨owner, i, hselected, hfirst⟩))

/-- The first of two transformations is selected by hand, and then it is pushed again. -/
theorem held_transformation_selected :
    let row (id : String) : Document := [("experiment_id", .string "e"), ("id", .string id)]
    let detail : Detail :=
      { experiment := [("id", .string "e")], transformations := [row "t1", row "t2"]
        tests := [], analytics := [] }
    let ops : List Operation := [.load [[("id", .string "e")]], .applyDetail detail,
      .selectTransformation "t1", .applyChange ⟨.transformations, .object (row "t1")⟩]
    (∀ (n : Nat) (op : Operation), ops[n]? = some op → op.NamesHeld (empty.run (ops.take n))) ∧
    (∀ n : Nat, ∀ view ∈ (empty.run (ops.take n)).views, view.FindsSelections) ∧
    (empty.run ops).isTransformationActive "t1" = true ∧
    ∃ view, (empty.run ops).selectedView? = some view ∧ view.HoldsRow .transformations "t1" := by
  intro row detail ops
  have hheld : ∀ (n : Nat) (op : Operation), ops[n]? = some op →
      op.NamesHeld (empty.run (ops.take n)) := by
    intro n op hop c id hnamed view hview
    match n with
    | 2 =>
      obtain rfl := Option.some.inj hop
      obtain ⟨rfl, rfl⟩ := Prod.mk.inj (Option.some.inj hnamed)
      obtain rfl := Option.some.inj hview
      exact ⟨row "t1", List.mem_cons_self, rfl⟩
    | 0 | 1 | 3 =>
      obtain rfl := Option.some.inj hop
      cases hnamed
    | n + 4 => cases hop
  obtain ⟨hiff, -, hactive⟩ := selections_found_iff_namesHeld ops
  have hfound := hiff.2 hheld
  have hend : ∀ view ∈ (empty.run ops).views, view.FindsSelections := hfound 4
  exact ⟨hheld, hfound, rfl, (hactive hend "t1").1 rfl⟩

/-- A transformation that a fetched experiment does not have is selected by hand, and is active. -/
theorem unheld_transformation_selected :
    let row (id : String) : Document := [("experiment_id", .string "e"), ("id", .string id)]
    let detail : Detail :=
      { experiment := [("createdAt", .ofNat 100), ("id", .string "e")]
        transformations := [row "t1"], tests := [row "x1"], analytics := [row "a1"] }
    let d := empty.run
      [.load [detail.experiment], .applyDetail detail, .selectTransformation "t2"]
    ∃ view, d.selectedView? = some view ∧ view.needsDetail = false ∧
      view.selectedTransformation? = some "t2" ∧ view.transformationRow? = none ∧
      ¬ view.HoldsRow .transformations "t2" ∧ d.isTransformationActive "t2" = true := by
  intro row detail d
  refine ⟨_, rfl, rfl, rfl, rfl, ?_, rfl⟩
  rw [holdsRow_iff]
  decide

end Dashboard

end TrialBoard
