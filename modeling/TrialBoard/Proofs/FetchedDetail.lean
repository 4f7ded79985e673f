import Mathlib.Data.List.Basic
import TrialBoard.Proofs.DashboardRun
import TrialBoard.Query
import TrialBoard.Store.Memory

/-!
# Details that were fetched

A view asks for details as long as it knows nothing of its transformations, its tests or its
analytics. Nothing that is known is ever forgotten, and an operation makes something known only by
bringing it (`Operation.Brings`). A detail brings lists of transformations and tests, though they be
empty, but analytics only if it has some.

So an experiment whose detail was fetched is asked for again just as long as neither the detail nor
a pushed row has brought it analytics, and for ever if it has none.
-/

namespace TrialBoard

/-- Whether the rows of a collection are known. -/
def ExperimentView.IsKnown (view : ExperimentView) (c : Collection) : Prop :=
  (view.known? c).isSome = true

namespace ExperimentView

variable {view : ExperimentView} {c : Collection}

theorem needsDetail_eq_false_iff :
    view.needsDetail = false ↔ ∀ c, c ≠ .experiments → view.IsKnown c := by
  have hall : (∀ c, c ≠ .experiments → view.IsKnown c) ↔
      view.IsKnown .transformations ∧ view.IsKnown .tests ∧ view.IsKnown .analytics := by
    refine ⟨fun h => ⟨h _ nofun, h _ nofun, h _ nofun⟩, fun h c hc => ?_⟩
    cases c with
    | experiments => exact absurd rfl hc
    | transformations => exact h.1
    | tests => exact h.2.1
    | analytics => exact h.2.2
  rw [hall, needsDetail]
  simp only [IsKnown, known?, Option.isSome_map, Bool.or_eq_false_iff, Option.isNone_eq_false_iff,
    and_assoc]

theorem isKnown_analytics_iff : view.IsKnown .analytics ↔ view.analytics? ≠ none := by
  rw [IsKnown, known?, Option.isSome_map, Option.isSome_iff_ne_none]

end ExperimentView

theorem isSome_foldl_takeIn {c : Collection} (hc : c ≠ .experiments) (rows : List Document)
    (known? : Option (List Document)) :
    (rows.foldl (takeIn c) known?).isSome = true ↔ known?.isSome = true ∨ rows ≠ [] := by
  have htakes : ∀ (known? : Option (List Document)) (row : Document),
      (takeIn c known? row).isSome = true := by
    intro known? row
    cases c with
    | experiments => exact absurd rfl hc
    | transformations | tests | analytics => rfl
  induction rows generalizing known? with
  | nil => simp
  | cons row rows ih => simp [ih, htakes]

namespace Dashboard

open ExperimentView

/-- Whether an operation brings an experiment rows of a collection. A detail brings lists even if
they are empty, but of analytics only a row. -/
def Operation.Brings (id : String) (c : Collection) : Operation → Prop
  | applyDetail detail =>
    detail.experiment.id? = some id ∧ (c = .analytics → detail.analytics ≠ [])
  | applyChange feed => pushedTo id c [feed] ≠ []
  | load _ | select _ | selectTransformation _ | selectTest _ => False

variable {d : Dashboard} {id owner : String} {view : ExperimentView} {c : Collection}
  {detail : Detail}

theorem experiment?_modify_of_some {f : ExperimentView → ExperimentView}
    (hid : ∀ view, (f view).id? = view.id?) (hview : d.experiment? id = some view) (owner : String) :
    (d.modify owner f).2.experiment? id = some (if owner = id then f view else view) := by
  split
  · rename_i howner
    subst howner
    rw [experiment?_modify hid, hview]
    rfl
  · rename_i howner
    rw [experiment?_modify_of_ne hid (Ne.symm howner), hview]

theorem experiment?_of_prefix {d' : Dashboard} (hviews : d.views <+: d'.views)
    (hview : d.experiment? id = some view) : d'.experiment? id = some view := by
  obtain ⟨added, hadded⟩ := hviews
  rw [experiment?] at hview ⊢
  rw [← hadded, List.find?_append, hview, Option.some_or]

theorem isKnown_fillIn (hc : c ≠ .experiments) :
    (view.fillIn detail).IsKnown c ↔ view.IsKnown c ∨ (c = .analytics → detail.analytics ≠ []) := by
  cases c with
  | experiments => exact absurd rfl hc
  | transformations | tests => simp [IsKnown, known?, fillIn]
  | analytics =>
    have hhead : detail.analytics.head?.isSome = true ↔ detail.analytics ≠ [] :=
      List.isSome_head?
    simp [IsKnown, known?, fillIn, Option.isSome_or, hhead]

theorem applyDetail_of_id (h : detail.experiment.id? = some id) (d : Dashboard) :
    d.applyDetail detail = d.modify id (·.fillIn detail) := by
  rw [applyDetail, h]

/-- What is known of an experiment after an operation was known before, or the operation brought
it. -/
theorem isKnown_apply (hview : d.experiment? id = some view) (op : Operation) :
    ∃ view', (op.apply d).experiment? id = some view' ∧
      ∀ c, c ≠ .experiments → (view'.IsKnown c ↔ view.IsKnown c ∨ op.Brings id c) := by
  have hselects : ∀ f : ExperimentView → ExperimentView, (∀ view, (f view).id? = view.id?) →
      (∀ view c, (f view).known? c = view.known? c) →
      ∃ view', (d.modifySelected f).2.experiment? id = some view' ∧
        ∀ c, c ≠ .experiments → (view'.IsKnown c ↔ view.IsKnown c ∨ False) := by
    intro f hid hknown
    unfold modifySelected
    split
    · rename_i owner _
      refine ⟨_, experiment?_modify_of_some hid hview owner, fun c _ => ?_⟩
      split
      · rw [IsKnown, hknown, or_false]
        rfl
      · rw [or_false]
    · exact ⟨view, hview, fun c _ => (or_false _).symm ▸ Iff.rfl⟩
  cases op with
  | load rows =>
    refine ⟨view, experiment?_of_prefix ?_ hview, fun c _ => (or_iff_left not_false).symm⟩
    exact d.views_load rows ▸ List.prefix_append _ _
  | select other =>
    refine ⟨view, experiment?_of_prefix ?_ hview, fun c _ => (or_iff_left not_false).symm⟩
    exact d.views_select other ▸ List.prefix_rfl
  | selectTransformation other | selectTest other =>
    exact hselects _ (fun _ => rfl) fun _ c => by cases c <;> rfl
  | applyDetail detail =>
    change ∃ view', (d.applyDetail detail).2.experiment? id = some view' ∧ _
    cases howner : detail.experiment.id? with
    | none =>
      rw [applyDetail, howner]
      refine ⟨view, hview, fun c _ => (or_iff_left fun hbrings => ?_).symm⟩
      cases howner.symm.trans hbrings.1
    | some owner =>
      rw [applyDetail_of_id howner]
      refine ⟨_, experiment?_modify_of_some (id?_fillIn detail) hview owner, fun c hc => ?_⟩
      have hsame : detail.experiment.id? = some id ↔ owner = id := by
        rw [howner, Option.some.injEq]
      rw [Operation.Brings, hsame]
      split
      · rename_i h
        rw [isKnown_fillIn hc, and_iff_right h]
      · rename_i h
        exact (or_iff_left fun hbrings => h hbrings.1).symm
  | applyChange feed =>
    obtain ⟨view', hview', hknown⟩ := known?_applyChange feed hview
    refine ⟨view', hview', fun c hc => ?_⟩
    rw [IsKnown, hknown c hc]
    exact isSome_foldl_takeIn hc _ _

theorem isKnown_run (hview : d.experiment? id = some view) (ops : List Operation) :
    ∃ view', (d.run ops).experiment? id = some view' ∧ ∀ c, c ≠ .experiments →
      (view'.IsKnown c ↔ view.IsKnown c ∨ ∃ op ∈ ops, op.Brings id c) := by
  induction ops generalizing d view with
  | nil => exact ⟨view, hview, fun c _ => by simp⟩
  | cons op ops ih =>
    obtain ⟨next, hnext, hstep⟩ := isKnown_apply hview op
    obtain ⟨view', hview', hrun⟩ := ih hnext
    refine ⟨view', hview', fun c hc => ?_⟩
    rw [hrun c hc, hstep c hc, List.exists_mem_cons_iff, or_assoc]

theorem select_fst (hview : d.experiment? id = some view) : (d.select id).1 = view.needsDetail := by
  rw [select, hview]

/-- Once a detail was taken in, an experiment is held, and it is asked for just as long as it had no
analytics before, has none in the detail, and no operation since has brought it any. So it is never
asked for again just when it had some, before or in the detail. -/
theorem asked_again_iff_without_analytics {detail : Detail} (hid : detail.experiment.id? = some id)
    (happlied : (d.applyDetail detail).1 = true) :
    let fetched := (d.applyDetail detail).2
    ∃ before, d.experiment? id = some before ∧
      (∀ later, ∃ view, (fetched.run later).experiment? id = some view ∧
        ((fetched.run later).select id).1 = view.needsDetail ∧
        (view.needsDetail = false ↔ before.analytics? ≠ none ∨ detail.analytics ≠ [] ∨
          ∃ op ∈ later, op.Brings id .analytics)) ∧
      ((∀ later, ((fetched.run later).select id).1 = false) ↔
        before.analytics? ≠ none ∨ detail.analytics ≠ []) := by
  intro fetched
  have hfetched : fetched = d.run [.applyDetail detail] := rfl
  obtain ⟨before, hbefore⟩ : ∃ before, d.experiment? id = some before := by
    refine Option.ne_none_iff_exists'.1 fun hnone => ?_
    rw [applyDetail_of_id hid, modify_of_none hnone] at happlied
    cases happlied
  have hlater : ∀ later, ∃ view, (fetched.run later).experiment? id = some view ∧
      ((fetched.run later).select id).1 = view.needsDetail ∧
      (view.needsDetail = false ↔ before.analytics? ≠ none ∨ detail.analytics ≠ [] ∨
        ∃ op ∈ later, op.Brings id .analytics) := by
    intro later
    rw [hfetched, ← run_append]
    obtain ⟨view, hview, hknown⟩ := isKnown_run hbefore ([.applyDetail detail] ++ later)
    have hlists : ∀ c, c ≠ .experiments → c ≠ .analytics → view.IsKnown c := fun c hc hlist =>
      (hknown c hc).2 (.inr ⟨_, List.mem_cons_self, hid, fun h => absurd h hlist⟩)
    have hdetail : (Operation.applyDetail detail).Brings id .analytics ↔ detail.analytics ≠ [] :=
      ⟨fun h => h.2 rfl, fun h => ⟨hid, fun _ => h⟩⟩
    refine ⟨view, hview, select_fst hview, ?_⟩
    calc view.needsDetail = false
        ↔ view.IsKnown .analytics := by
          rw [needsDetail_eq_false_iff]
          refine ⟨fun h => h .analytics nofun, fun h c hc => ?_⟩
          by_cases hlist : c = .analytics
          · rwa [hlist]
          · exact hlists c hc hlist
      _ ↔ before.analytics? ≠ none ∨ detail.analytics ≠ [] ∨
            ∃ op ∈ later, op.Brings id .analytics := by
          rw [hknown .analytics nofun, isKnown_analytics_iff, List.singleton_append,
            List.exists_mem_cons_iff, hdetail]
  refine ⟨before, hbefore, hlater, fun hall => ?_, fun h later => ?_⟩
  · obtain ⟨view, -, hselect, hiff⟩ := hlater []
    simpa using hiff.1 (hselect.symm.trans (hall []))
  · obtain ⟨view, -, hselect, hiff⟩ := hlater later
    exact hselect.trans (hiff.2 (h.imp_right .inl))

/-- A detail without analytics is taken in, then a row of analytics is pushed, a listing brings the
same experiment once more, and its row is pushed. -/
theorem pushed_analytics_end_asking :
    let row : Document := [("id", .string "e")]
    let detail : Detail :=
      { experiment := row, transformations := [], tests := [], analytics := [] }
    let d := empty.run [.load [row]]
    let later : List Operation :=
      [.applyChange ⟨.analytics, .object [("experiment_id", .string "e"), ("id", .string "a")]⟩,
        .load [row], .applyChange ⟨.experiments, .object row⟩]
    detail.experiment.id? = some "e" ∧ (d.applyDetail detail).1 = true ∧
      (((d.applyDetail detail).2.run later).select "e").1 = false ∧
      ¬ ∀ later, (((d.applyDetail detail).2.run later).select "e").1 = false := by
  intro row detail d later
  have hid : detail.experiment.id? = some "e" := rfl
  have happlied : (d.applyDetail detail).1 = true := rfl
  obtain ⟨before, hbefore, hlater, hall⟩ := asked_again_iff_without_analytics hid happlied
  obtain ⟨view, -, hselect, hiff⟩ := hlater later
  have hnone : before.analytics? = none := by
    obtain rfl := Option.some.inj hbefore
    rfl
  refine ⟨hid, happlied, hselect.trans (hiff.2 (.inr (.inr ?_))), fun h => ?_⟩
  · exact ⟨_, List.mem_cons_self, List.cons_ne_nil _ _⟩
  · exact (hall.1 h).elim (· hnone) (· rfl)

/-- An experiment of a store has no rows that belong to it. Its detail is fetched and taken in, and
it is asked for again. -/
theorem experiment_without_analytics_asked_for_again :
    let row : Document := [("createdAt", .ofNat 100), ("id", .string "e")]
    let s : MemoryStore := { rows := { ByCollection.ofFn (fun _ => []) with experiments := [row] } }
    ∃ detail, (Query.detail s "e").1 = .ok (some detail) ∧
      let d := empty.run [.load [row]]
      (d.applyDetail detail).1 = true ∧
      (∃ view, (d.applyDetail detail).2.experiment? "e" = some view ∧ view.needsDetail = true) ∧
      ((d.applyDetail detail).2.select "e").1 = true := by
  intro row s
  exact ⟨⟨row, [], [], []⟩, rfl, rfl, ⟨_, rfl, rfl⟩, rfl⟩

end Dashboard

end TrialBoard
