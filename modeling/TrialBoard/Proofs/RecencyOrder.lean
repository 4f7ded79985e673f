import Mathlib.Data.List.Induction
import TrialBoard.Proofs.ChildSelections

/-!
# The order of creation times

Any two values are comparable by what they say of a creation, whatever their kinds, and the order is
transitive (`compareCreatedAt` is a `Std.TransCmp`). So a list that is not empty has one place at
which no row is more recent and every earlier row is less recent (`IsMostRecent`), and the row there
is the one that `mostRecent` picks and a listing selects.
-/

namespace TrialBoard

/-! ## A total preorder -/

instance : Std.TransCmp Binary64.compare := inferInstanceAs (Std.TransCmp (compareOn Binary64.key))

namespace CreationMark

theorem compare_swap (a b : CreationMark) : a.compare b = (b.compare a).swap := by
  cases a with
  | unknown => cases b <;> rfl
  | number x =>
    cases b with
    | number y => exact @Std.OrientedCmp.eq_swap _ Binary64.compare _ _ _
    | unknown | text => rfl
  | text x =>
    cases b with
    | text y => exact @Std.OrientedCmp.eq_swap _ Ord.compare _ _ _
    | unknown | number => rfl

instance : Std.OrientedCmp compare := ⟨compare_swap _ _⟩

/-- Between marks of one kind the order is that of their values, and the kinds come one after the
other. -/
instance : Std.TransCmp compare where
  isLE_trans {a b c} hab hbc := by
    cases a with
    | unknown => cases c <;> rfl
    | number x =>
      cases b with
      | unknown => cases hab
      | text y =>
        cases c with
        | text z => rfl
        | unknown | number => cases hbc
      | number y =>
        cases c with
        | number z => exact @Std.TransCmp.isLE_trans _ Binary64.compare _ _ _ _ hab hbc
        | text z => rfl
        | unknown => cases hbc
    | text x =>
      cases b with
      | unknown | number => cases hab
      | text y =>
        cases c with
        | text z => exact @Std.TransCmp.isLE_trans _ Ord.compare _ _ _ _ hab hbc
        | unknown | number => cases hbc

end CreationMark

instance : Std.TransCmp compareCreatedAt where
  eq_swap := CreationMark.compare_swap _ _
  isLE_trans hab hbc := @Std.TransCmp.isLE_trans _ CreationMark.compare _ _ _ _ hab hbc

theorem compareCreatedAt_self (a : Option Json) : compareCreatedAt a a = .eq :=
  @Std.ReflCmp.compare_self _ compareCreatedAt _ _

theorem compareCreatedAt_swap (a b : Option Json) :
    compareCreatedAt a b = (compareCreatedAt b a).swap :=
  @Std.OrientedCmp.eq_swap _ compareCreatedAt _ _ _

theorem compareCreatedAt_trans {a b c : Option Json} (hab : compareCreatedAt a b ≠ .gt)
    (hbc : compareCreatedAt b c ≠ .gt) : compareCreatedAt a c ≠ .gt := by
  have hle : ∀ {x y}, compareCreatedAt x y ≠ .gt → (compareCreatedAt x y).isLE = true :=
    Ordering.isLE_iff_ne_gt.2
  exact Ordering.isLE_iff_ne_gt.1 (Std.TransCmp.isLE_trans (hle hab) (hle hbc))

/-- A value that is neither a number nor a text comes before every number. -/
theorem compareCreatedAt_number {a : Option Json} (hnumber : ∀ n, a ≠ some (.number n))
    (htext : ∀ s, a ≠ some (.string s)) (n : JsonNumber) :
    compareCreatedAt a (some (.number n)) = .lt := by
  cases a with
  | none => rfl
  | some value =>
    cases value with
    | number m => exact absurd rfl (hnumber m)
    | string s => exact absurd rfl (htext s)
    | null | bool | array | object => rfl

theorem compareCreatedAt_text {s t : String} (h : s < t) :
    compareCreatedAt (some (.string s)) (some (.string t)) = .lt := by
  change compareOfLessAndEq s t = .lt
  exact if_pos h

/-! ## The first of the most recent rows -/

/-- Whether a row stands at a place of a list, with no row more recent and every row before it less
recent. -/
structure IsMostRecent (rows : List Document) (i : Nat) (row : Document) : Prop where
  place : rows[i]? = some row
  greatest : ∀ other ∈ rows, compareCreatedAt other.createdAt? row.createdAt? ≠ .gt
  first : ∀ j < i, ∀ other, rows[j]? = some other →
    compareCreatedAt other.createdAt? row.createdAt? = .lt

variable {rows : List Document} {row other doc : Document} {i j : Nat}

theorem IsMostRecent.le_of (h : IsMostRecent rows i row) (h' : IsMostRecent rows j other) :
    i ≤ j := by
  refine Nat.le_of_not_lt fun hlt => ?_
  have hless := h.first j hlt other h'.place
  have hgreater := h'.greatest row (List.mem_of_getElem? h.place)
  rw [compareCreatedAt_swap, hless] at hgreater
  exact hgreater rfl

theorem mostRecent_concat (rows : List Document) (doc : Document) : mostRecent (rows ++ [doc]) =
    some ((mostRecent rows).elim doc (moreRecent · doc)) := by
  cases rows with
  | nil => rfl
  | cons first rows =>
    rw [List.cons_append, mostRecent, List.foldl_append]
    rfl

/-- A further row takes over only if it is more recent. -/
theorem IsMostRecent.concat (h : IsMostRecent rows i row) (doc : Document) :
    ∃ i, IsMostRecent (rows ++ [doc]) i (moreRecent row doc) := by
  unfold moreRecent
  split
  · rename_i hmore
    have hless : compareCreatedAt row.createdAt? doc.createdAt? = .lt :=
      Std.OrientedCmp.lt_of_gt hmore
    have hbefore : ∀ other ∈ rows, compareCreatedAt other.createdAt? doc.createdAt? = .lt :=
      fun other hother => Std.TransCmp.lt_of_isLE_of_lt
        (Ordering.isLE_iff_ne_gt.2 (h.greatest other hother)) hless
    refine ⟨rows.length, List.getElem?_concat_length, fun other hother => ?_,
      fun j hj other hplace => ?_⟩
    · rcases List.mem_append.1 hother with hold | hnew
      · rw [hbefore other hold]
        decide
      · obtain rfl := List.mem_singleton.1 hnew
        rw [compareCreatedAt_self]
        decide
    · rw [List.getElem?_append_left hj] at hplace
      exact hbefore other (List.mem_of_getElem? hplace)
  · rename_i hless
    have hi : i < rows.length := (List.getElem?_eq_some_iff.1 h.place).1
    refine ⟨i, (List.getElem?_append_left hi).trans h.place, fun other hother => ?_,
      fun j hj other hplace => ?_⟩
    · rcases List.mem_append.1 hother with hold | hnew
      · exact h.greatest other hold
      · obtain rfl := List.mem_singleton.1 hnew
        exact hless
    · rw [List.getElem?_append_left (Nat.lt_trans hj hi)] at hplace
      exact h.first j hj other hplace

theorem exists_isMostRecent (h : rows ≠ []) :
    ∃ i row, mostRecent rows = some row ∧ IsMostRecent rows i row := by
  induction rows using List.reverseRecOn with
  | nil => exact absurd rfl h
  | append_singleton rows doc ih =>
    rw [mostRecent_concat]
    cases rows with
    | nil =>
      refine ⟨0, doc, rfl, rfl, fun other hother => ?_, fun j hj => nomatch hj⟩
      obtain rfl := List.mem_singleton.1 hother
      rw [compareCreatedAt_self]
      decide
    | cons first rows =>
      obtain ⟨i, row, hrow, hmost⟩ := ih (List.cons_ne_nil _ _)
      obtain ⟨j, hnext⟩ := hmost.concat doc
      exact ⟨j, moreRecent row doc, by rw [hrow]; rfl, hnext⟩

theorem mostRecent_eq_of_isMostRecent (h : IsMostRecent rows i row) :
    mostRecent rows = some row := by
  obtain ⟨j, found, hfound, hmost⟩ :=
    exists_isMostRecent (List.ne_nil_of_mem (List.mem_of_getElem? h.place))
  obtain rfl : i = j := Nat.le_antisymm (h.le_of hmost) (hmost.le_of h)
  rw [hfound, ← hmost.place, h.place]

/-! ## A listing -/

/-- A listing selects its most recent experiment, as that one is held by then. -/
theorem Dashboard.selected?_load (d : Dashboard) {id : String} (h : mostRecent rows = some row)
    (hid : row.id? = some id) : (d.load rows).2.selected? = some id := by
  let held : Dashboard := { d with views := d.views ++ rows.map fun e => { experiment := e } }
  have hmem : some id ∈ held.ids := by
    rw [ids, List.map_append, List.map_map]
    exact List.mem_append_right _ (List.mem_map.2 ⟨row, mostRecent_mem h, hid⟩)
  obtain ⟨view, hview⟩ := mem_ids_iff.1 hmem
  have hload : (d.load rows).2 = (held.select id).2 := by
    rw [load, h, Option.bind_some, hid]
  rw [hload, select, hview]

/-- Any two values that tell of a creation are comparable, each is equal to itself, and the order is
transitive: first what is neither a number nor a text, then the numbers, then the texts in their own
order. A list that is not empty has one place where no row is more recent and every earlier row is
less recent. The row there is the most recent one, and a listing selects it if it has an id. -/
theorem most_recent_is_first_greatest :
    ((∀ a, compareCreatedAt a a = .eq) ∧
      (∀ a b, compareCreatedAt b a = (compareCreatedAt a b).swap) ∧
      (∀ a b c, compareCreatedAt a b ≠ .gt → compareCreatedAt b c ≠ .gt →
        compareCreatedAt a c ≠ .gt) ∧
      (∀ a, (∀ n, a ≠ some (.number n)) → (∀ s, a ≠ some (.string s)) →
        ∀ n, compareCreatedAt a (some (.number n)) = .lt) ∧
      (∀ n s, compareCreatedAt (some (.number n)) (some (.string s)) = .lt) ∧
      ∀ s t, s < t → compareCreatedAt (some (.string s)) (some (.string t)) = .lt) ∧
    mostRecent [] = none ∧
    ∀ rows : List Document, rows ≠ [] → ∃ i row, mostRecent rows = some row ∧
      IsMostRecent rows i row ∧ (∀ j other, IsMostRecent rows j other → j = i) ∧
      ∀ id, row.id? = some id → ∀ d : Dashboard, (d.load rows).2.selected? = some id := by
  refine ⟨⟨compareCreatedAt_self, fun a b => compareCreatedAt_swap b a,
    fun a b c => compareCreatedAt_trans, fun a => compareCreatedAt_number, fun n s => rfl,
    fun s t => compareCreatedAt_text⟩, rfl, fun rows hrows => ?_⟩
  obtain ⟨i, row, hrow, hmost⟩ := exists_isMostRecent hrows
  refine ⟨i, row, hrow, hmost, fun j other hother => ?_, fun id hid d => d.selected?_load hrow hid⟩
  exact Nat.le_antisymm (hother.le_of hmost) (hmost.le_of hother)

/-- A row with a number, one with a text, one with none, and again one with the same text. -/
theorem first_of_two_texts_is_selected :
    let row (id : String) (createdAt : Json) : Document :=
      [("createdAt", createdAt), ("id", .string id)]
    let rows : List Document := [row "a" (.ofNat 300), row "b" (.string "2024"), row "c" .null,
      row "d" (.string "2024")]
    rows ≠ [] ∧ mostRecent rows = some (row "b" (.string "2024")) ∧
      IsMostRecent rows 1 (row "b" (.string "2024")) ∧
      (Dashboard.empty.load rows).2.selected? = some "b" := by
  intro row rows
  have hrows : rows ≠ [] := List.cons_ne_nil _ _
  obtain ⟨-, -, hlist⟩ := most_recent_is_first_greatest
  obtain ⟨i, found, hfound, hmost, -, hselected⟩ := hlist rows hrows
  have hrow : mostRecent rows = some (row "b" (.string "2024")) := rfl
  obtain rfl := Option.some.inj (hrow.symm.trans hfound)
  have hi : i = 1 := by
    have hid : (rows[i]?.bind Document.id?) = some "b" := by rw [hmost.place]; rfl
    match i with
    | 1 => rfl
    | 0 | 2 | 3 => exact absurd hid (by decide)
    | i + 4 => cases hid
  subst hi
  exact ⟨hrows, hrow, hmost, hselected "b" rfl Dashboard.empty⟩

end TrialBoard
