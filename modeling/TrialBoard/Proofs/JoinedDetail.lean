import TrialBoard.Proofs.Questions

/-!
# What the detail of an experiment joins

The question for an experiment reads up to four collections one after the other. It is answered
with a failure exactly when the store is unavailable or a collection that it reads fails, and then
the first such collection is named. Without the experiment only the experiments are read, so the
others can neither fail the question nor change its answer.

What a detail joins is said by `Detail.Joins` without the reads: the first row with the id, and the
rows that belong to it, in the order of the store, with none left out and none twice. There is one
such detail at most.
-/

namespace TrialBoard

open Document (hasId hasId_iff)

/-! ## Rows picked out of others -/

section

variable {α : Type} {p : α → Bool} {picked others rows : List α}

/-- Rows picked out in their order are those that pass a test, if they all pass it and none of the
others does. -/
theorem eq_filter_of_sublist (horder : picked.Sublist rows) (hall : (picked ++ others).Perm rows)
    (hpicked : ∀ x ∈ picked, p x = true) (hothers : ∀ x ∈ others, p x = false) :
    picked = rows.filter p := by
  have hself : picked.filter p = picked := List.filter_eq_self.2 hpicked
  have hnone : others.filter p = [] :=
    List.filter_eq_nil_iff.2 fun x hx => Bool.eq_false_iff.1 (hothers x hx)
  have hperm := hall.filter p
  rw [List.filter_append, hself, hnone, List.append_nil] at hperm
  have hsublist := horder.filter p
  rw [hself] at hsublist
  exact hsublist.eq_of_length hperm.length_eq

theorem find?_eq_some_iff_append_singleton {x : α} :
    rows.find? p = some x ↔ p x = true ∧ ∃ before, before ++ [x] <+: rows ∧
      ∀ y ∈ before, p y = false := by
  rw [List.find?_eq_some_iff_append]
  refine and_congr_right fun _ => ⟨?_, ?_⟩
  · rintro ⟨before, after, rfl, hbefore⟩
    exact ⟨before, ⟨after, by simp⟩, fun y hy => by simpa using hbefore y hy⟩
  · rintro ⟨before, ⟨after, rfl⟩, hbefore⟩
    exact ⟨before, after, by simp, fun y hy => by simpa using hbefore y hy⟩

end

/-! ## The join -/

/-- Whether a detail is that of the first experiment with an id, and has of each other collection
the rows that belong to it. -/
structure Detail.Joins (rows : ByCollection (List Document)) (id : String) (detail : Detail) :
    Prop where
  /-- The experiment has the id, and no row before it has. -/
  first : detail.experiment.id? = some id ∧
    ∃ before, before ++ [detail.experiment] <+: rows.get .experiments ∧
      ∀ row ∈ before, row.id? ≠ some id
  belong : ∀ c, c ≠ .experiments → ∀ row ∈ detail.rowsOf c, row.experiment? = some id
  ordered : ∀ c, c ≠ .experiments → (detail.rowsOf c).Sublist (rows.get c)
  /-- The rows of the collection are those of the detail and others, which do not belong. -/
  complete : ∀ c, c ≠ .experiments → ∃ others, (detail.rowsOf c ++ others).Perm (rows.get c) ∧
    ∀ row ∈ others, row.experiment? ≠ some id

namespace Detail

variable {rows : ByCollection (List Document)} {id : String} {detail : Detail}

theorem Joins.find? (h : detail.Joins rows id) :
    (rows.get .experiments).find? (hasId id) = some detail.experiment := by
  obtain ⟨hid, before, hbefore, hother⟩ := h.first
  refine find?_eq_some_iff_append_singleton.2 ⟨hasId_iff.2 hid, before, hbefore, fun row hrow => ?_⟩
  rw [Bool.eq_false_iff, ne_eq, hasId_iff]
  exact hother row hrow

theorem Joins.rowsOf (h : detail.Joins rows id) {c : Collection} (hc : c ≠ .experiments) :
    detail.rowsOf c = belonging rows id c := by
  obtain ⟨others, hall, hothers⟩ := h.complete c hc
  refine eq_filter_of_sublist (h.ordered c hc) hall (fun row hrow => ?_) fun row hrow => ?_
  · simpa using h.belong c hc row hrow
  · simpa using hothers row hrow

theorem joins_of_find? (hfirst : (rows.get .experiments).find? (hasId id) = some detail.experiment)
    (hrows : ∀ c, c ≠ .experiments → detail.rowsOf c = belonging rows id c) :
    detail.Joins rows id where
  first := by
    obtain ⟨hid, before, hbefore, hother⟩ := find?_eq_some_iff_append_singleton.1 hfirst
    refine ⟨hasId_iff.1 hid, before, hbefore, fun row hrow => ?_⟩
    rw [ne_eq, ← hasId_iff, hother row hrow]
    exact Bool.false_ne_true
  belong c hc row hrow := by
    rw [hrows c hc, belonging] at hrow
    simpa using (List.mem_filter.1 hrow).2
  ordered c hc := by
    rw [hrows c hc]
    exact List.filter_sublist
  complete c hc := by
    refine ⟨(rows.get c).filter fun row => !(row.experiment? == some id), ?_, fun row hrow => ?_⟩
    · rw [hrows c hc]
      exact List.filter_append_perm _ _
    · simpa using (List.mem_filter.1 hrow).2

/-- The detail among the rows of a store is the one that joins them. -/
theorem among?_eq_some_iff : among? rows id = some detail ↔ detail.Joins rows id := by
  rw [among?, Option.map_eq_some_iff]
  constructor
  · rintro ⟨experiment, hfirst, rfl⟩
    refine joins_of_find? hfirst fun c hc => ?_
    cases c with
    | experiments => exact absurd rfl hc
    | transformations | tests | analytics => rfl
  · intro h
    refine ⟨detail.experiment, h.find?, ?_⟩
    rw [← h.rowsOf (c := .transformations) (by decide), ← h.rowsOf (c := .tests) (by decide),
      ← h.rowsOf (c := .analytics) (by decide)]
    rfl

theorem among?_eq_none_iff :
    among? rows id = none ↔ ¬ ∃ row ∈ rows.get .experiments, row.id? = some id := by
  rw [among?, Option.map_eq_none_iff, List.find?_eq_none]
  simp only [hasId_iff, not_exists, not_and]

end Detail

/-! ## The answers of a store in memory -/

namespace MemoryStore

variable {s s' : MemoryStore} {id : String} {collections : List Collection} {α : Type} {value : α}

/-- Whether a store has an experiment. -/
def HasExperiment (s : MemoryStore) (id : String) : Prop :=
  ∃ row ∈ s.rows.get .experiments, row.id? = some id

/-- Whether the queries of a collection fail. -/
def Fails (s : MemoryStore) (c : Collection) : Prop := s.faults.failingQueries.get c = true

/-- Whether two stores cannot be told apart by opening a session and querying the experiments. -/
def SameExperiments (s s' : MemoryStore) : Prop :=
  s'.faults.unavailable = s.faults.unavailable ∧ (s'.Fails .experiments ↔ s.Fails .experiments) ∧
    s'.rows.get .experiments = s.rows.get .experiments

theorem answer_of_available (h : s.faults.unavailable = false) :
    s.answer collections value = match collections.find? s.faults.failingQueries.get with
      | some c => .error (.error (.queryFailed c "injected query failure"))
      | none => .ok value := by
  unfold answer fault?
  rw [h]
  cases collections.find? s.faults.failingQueries.get <;> rfl

theorem answer_eq_unavailable_iff :
    s.answer collections value = .error (.error (.unavailable "connection refused")) ↔
      s.faults.unavailable = true := by
  cases h : s.faults.unavailable with
  | true => simp [answer_of_unavailable h]
  | false =>
    rw [answer_of_available h]
    cases collections.find? s.faults.failingQueries.get <;> simp

theorem answer_eq_queryFailed_iff {c : Collection} :
    s.answer collections value = .error (.error (.queryFailed c "injected query failure")) ↔
      s.faults.unavailable = false ∧
        collections.find? s.faults.failingQueries.get = some c := by
  cases h : s.faults.unavailable with
  | true => simp [answer_of_unavailable h]
  | false =>
    rw [answer_of_available h]
    cases collections.find? s.faults.failingQueries.get <;> simp

theorem answer_eq_ok_iff {other : α} :
    s.answer collections value = .ok other ↔
      s.faults.unavailable = false ∧ (∀ c ∈ collections, ¬ s.Fails c) ∧ value = other := by
  have hnone : collections.find? s.faults.failingQueries.get = none ↔
      ∀ c ∈ collections, ¬ s.Fails c := List.find?_eq_none
  cases h : s.faults.unavailable with
  | true => simp [answer_of_unavailable h]
  | false =>
    rw [answer_of_available h, ← hnone]
    cases collections.find? s.faults.failingQueries.get <;> simp

theorem readFor_of_hasExperiment (h : s.HasExperiment id) : s.readFor id = Collection.all := by
  have hany : (s.rows.get .experiments).any (hasId id) = true := by
    simpa [hasId_iff, HasExperiment] using h
  rw [readFor, if_pos hany]
  rfl

theorem readFor_of_not_hasExperiment (h : ¬ s.HasExperiment id) :
    s.readFor id = [.experiments] := by
  have hany : ¬ (s.rows.get .experiments).any (hasId id) = true := by
    simpa [hasId_iff, HasExperiment] using h
  rw [readFor, if_neg hany]

/-- The first collection that is read and fails: none before it fails, and it is read. -/
theorem find?_readFor_iff {c : Collection} :
    (s.readFor id).find? s.faults.failingQueries.get = some c ↔
      s.Fails c ∧ (c = .experiments ∨ s.HasExperiment id) ∧
        ∃ before, before ++ [c] <+: Collection.all ∧ ∀ b ∈ before, ¬ s.Fails b := by
  have hfails : ∀ b, s.faults.failingQueries.get b = false ↔ ¬ s.Fails b := fun b =>
    Bool.eq_false_iff
  rw [find?_eq_some_iff_append_singleton]
  simp only [hfails]
  refine and_congr_right fun _ => ?_
  by_cases h : s.HasExperiment id
  · rw [readFor_of_hasExperiment h]
    simp only [h, or_true, true_and]
  · rw [readFor_of_not_hasExperiment h]
    simp only [h, or_false]
    constructor
    · rintro ⟨before, hread, -⟩
      have hc : c ∈ [Collection.experiments] :=
        hread.mem (List.mem_append_right _ List.mem_cons_self)
      rw [List.mem_singleton] at hc
      exact ⟨hc, [], ⟨[.transformations, .tests, .analytics], hc ▸ rfl⟩, nofun⟩
    · rintro ⟨rfl, -⟩
      exact ⟨[], List.prefix_rfl, nofun⟩

theorem hasExperiment_of_joins {detail : Detail} (h : detail.Joins s.rows id) :
    s.HasExperiment id :=
  ⟨detail.experiment, List.mem_of_find?_eq_some h.find?, h.first.1⟩

theorem exists_joins (h : s.HasExperiment id) : ∃ detail : Detail, detail.Joins s.rows id := by
  obtain ⟨detail, hdetail⟩ : ∃ detail, Detail.among? s.rows id = some detail :=
    Option.ne_none_iff_exists'.1 fun hnone => Detail.among?_eq_none_iff.1 hnone h
  exact ⟨detail, Detail.among?_eq_some_iff.1 hdetail⟩

theorem detail_eq_of_sameExperiments (habsent : ¬ s.HasExperiment id) (h : s.SameExperiments s') :
    (Query.detail s' id).1 = (Query.detail s id).1 := by
  obtain ⟨hopen, hfails, hrows⟩ := h
  have habsent' : ¬ s'.HasExperiment id := by rwa [HasExperiment, hrows]
  have hsame : s'.faults.failingQueries.get .experiments =
      s.faults.failingQueries.get .experiments := Bool.eq_iff_iff.2 hfails
  rw [detail_eq, detail_eq, readFor_of_not_hasExperiment habsent,
    readFor_of_not_hasExperiment habsent', Detail.among?_eq_none_iff.2 habsent,
    Detail.among?_eq_none_iff.2 habsent', answer, answer, fault?, fault?, List.find?_singleton,
    List.find?_singleton, hopen, hsame]

/-- The question for an experiment fails just when no session can be opened, or with the first
collection in order that is read and fails, where the others are read only if the experiment is
there. Otherwise it is answered by the one detail that joins the rows, or by none if the experiment
is not there, and then nothing but the experiments decides. The store stays as it is: its rows, and
how many sessions are open. -/
theorem detail_joins_rows (s : MemoryStore) (id : String) :
    let answer := (Query.detail s id).1
    (answer = .error (.error (.unavailable "connection refused")) ↔ s.faults.unavailable = true) ∧
    (∀ c, answer = .error (.error (.queryFailed c "injected query failure")) ↔
      s.faults.unavailable = false ∧ s.Fails c ∧ (c = .experiments ∨ s.HasExperiment id) ∧
        ∃ before, before ++ [c] <+: Collection.all ∧ ∀ b ∈ before, ¬ s.Fails b) ∧
    (answer = .ok none ↔
      s.faults.unavailable = false ∧ ¬ s.Fails .experiments ∧ ¬ s.HasExperiment id) ∧
    (∀ detail, answer = .ok (some detail) ↔
      s.faults.unavailable = false ∧ (∀ c, ¬ s.Fails c) ∧ detail.Joins s.rows id) ∧
    (s.HasExperiment id → ∃ detail : Detail, detail.Joins s.rows id) ∧
    (¬ s.HasExperiment id → ∀ s', s.SameExperiments s' → (Query.detail s' id).1 = answer) ∧
    (Query.detail s id).2 = s := by
  intro answer
  have hanswer : answer = s.answer (s.readFor id) (Detail.among? s.rows id) :=
    congrArg Prod.fst (detail_eq s id)
  refine ⟨?_, fun c => ?_, ?_, fun detail => ?_, fun h => ?_, fun habsent s' => ?_, ?_⟩
  · rw [hanswer, answer_eq_unavailable_iff]
  · rw [hanswer, answer_eq_queryFailed_iff, find?_readFor_iff]
  · rw [hanswer, answer_eq_ok_iff, Detail.among?_eq_none_iff]
    refine and_congr_right fun _ => and_congr_left fun habsent => ?_
    rw [readFor_of_not_hasExperiment habsent]
    exact List.forall_mem_singleton
  · rw [hanswer, answer_eq_ok_iff, Detail.among?_eq_some_iff]
    refine and_congr_right fun _ => and_congr_left fun hjoins => ?_
    rw [readFor_of_hasExperiment (hasExperiment_of_joins hjoins)]
    exact ⟨fun h c => h c c.mem_all, fun h c _ => h c⟩
  · exact exists_joins h
  · exact detail_eq_of_sameExperiments habsent
  · rw [detail_eq]

/-- Two experiments have the id, and of the tests one belongs to another experiment and one to none,
as a number is the id of no experiment. -/
theorem detail_of_first_experiment_joins_rows :
    let experiment (note : Bool) : Document := [("id", .string "1"), ("note", .bool note)]
    let test (owner : Json) (id : String) : Document :=
      [("experiment_id", owner), ("id", .string id)]
    let s : MemoryStore := { rows := { ByCollection.ofFn (fun _ => []) with
      experiments := [experiment false, experiment true]
      tests := [test (.string "1") "x", test (.string "2") "y", test (.ofNat 1) "z",
        test (.string "1") "x"] } }
    let detail : Detail :=
      { experiment := experiment false, transformations := [], analytics := []
        tests := [test (.string "1") "x", test (.string "1") "x"] }
    s.HasExperiment "1" ∧ (Query.detail s "1").1 = .ok (some detail) ∧ detail.Joins s.rows "1" ∧
      (Query.detail s "1").2 = s := by
  intro experiment test s detail
  have hanswer : (Query.detail s "1").1 = .ok (some detail) := rfl
  obtain ⟨-, -, -, hjoins, -, -, hkept⟩ := detail_joins_rows s "1"
  obtain ⟨-, -, hdetail⟩ := (hjoins detail).1 hanswer
  exact ⟨hasExperiment_of_joins hdetail, hanswer, hdetail, hkept⟩

end MemoryStore

end TrialBoard
