import TrialBoard.Proofs.Rows

/-!
# Rows that are pushed again

Rows with distinct ids are known by the order of their ids and by the row of each. So pushing rows
again changes nothing as long as the last one of each id is the row that is held: what was older
comes and goes. `Covered` says this of pushed rows, and it is kept when a row is written and pushed
as well.

A selection of the rows by a test that agrees on rows of one id is treated in the same way.
-/

namespace TrialBoard

open Document
open ExperimentView (upsertRow)

/-- Whether every row has an id, and no two rows the same. -/
structure Keyed (rows : List Document) : Prop where
  ids : ∀ row ∈ rows, ∃ id, row.id? = some id
  nodup : (rows.map Document.id?).Nodup

variable {rows rows' pushed : List Document} {row : Document} {id other : String}
  {p : Document → Bool}

theorem keyed_nil : Keyed [] := ⟨by simp, List.nodup_nil⟩

theorem Keyed.tail {r : Document} (h : Keyed (r :: rows)) : Keyed rows :=
  ⟨fun row hrow => h.ids row (List.mem_cons_of_mem _ hrow), (List.nodup_cons.1 h.nodup).2⟩

theorem Keyed.filter (h : Keyed rows) (p : Document → Bool) : Keyed (rows.filter p) :=
  ⟨fun row hrow => h.ids row (List.mem_filter.1 hrow).1,
    h.nodup.sublist (List.filter_sublist.map _)⟩

theorem any_hasId_iff : rows.any (hasId id) = true ↔ some id ∈ rows.map Document.id? := by
  simp [hasId_iff]

theorem find?_of_keyed (h : Keyed rows) (hrow : row ∈ rows) (hid : row.id? = some id) :
    rows.find? (hasId id) = some row := by
  induction rows with
  | nil => cases hrow
  | cons r rows ih =>
    by_cases hr : hasId id r
    · rcases List.mem_cons.1 hrow with rfl | hrow
      · simp [hr]
      · have hmem : row.id? ∈ rows.map Document.id? := List.mem_map_of_mem hrow
        rw [hid, ← hasId_iff.1 hr] at hmem
        exact absurd hmem (List.nodup_cons.1 h.nodup).1
    · have hne : row ≠ r := fun heq => hr (hasId_iff.2 (heq ▸ hid))
      simpa [hr] using ih h.tail ((List.mem_cons.1 hrow).resolve_left hne)

/-! ## One row pushed -/

theorem map_id?_upsertRow (hid : row.id? = some id) (rows : List Document) :
    (upsertRow row rows).map Document.id? =
      if rows.any (hasId id) then rows.map Document.id?
      else rows.map Document.id? ++ [some id] := by
  rw [upsertRow_of_id hid]
  induction rows with
  | nil => simp [replaceOrAppend, hid]
  | cons r rows ih =>
    unfold replaceOrAppend
    by_cases hr : hasId id r
    · simp [hr, hid, hasId_iff.1 hr]
    · simp only [hr, Bool.false_eq_true, if_false, List.map_cons, ih, List.any_cons,
        Bool.false_or]
      split <;> rfl

theorem keyed_upsertRow (h : Keyed rows) (hid : row.id? = some id) :
    Keyed (upsertRow row rows) := by
  refine ⟨fun r hr => ?_, ?_⟩
  · have hmem : r.id? ∈ (upsertRow row rows).map Document.id? := List.mem_map_of_mem hr
    rw [map_id?_upsertRow hid] at hmem
    have hcases : r.id? ∈ rows.map Document.id? ∨ r.id? = some id := by
      split at hmem
      · exact .inl hmem
      · simpa using hmem
    rcases hcases with hold | hnew
    · obtain ⟨r', hr', heq⟩ := List.mem_map.1 hold
      rw [← heq]
      exact h.ids r' hr'
    · exact ⟨id, hnew⟩
  · rw [map_id?_upsertRow hid]
    split
    · exact h.nodup
    · rename_i hnew
      refine List.nodup_append.2 ⟨h.nodup, by simp, fun a ha b hb heq => ?_⟩
      rw [heq, List.mem_singleton.1 hb] at ha
      exact hnew (any_hasId_iff.2 ha)

theorem find?_upsertRow_self (hid : row.id? = some id) (rows : List Document) :
    (upsertRow row rows).find? (hasId id) = some row := by
  rw [upsertRow_of_id hid]
  have hself : hasId id row = true := hasId_iff.2 hid
  induction rows with
  | nil => simp [replaceOrAppend, hself]
  | cons r rows ih =>
    unfold replaceOrAppend
    by_cases hr : hasId id r
    · simp [hr, hself]
    · simp [hr, ih]

theorem find?_upsertRow_of_ne (hid : row.id? = some id) (hne : other ≠ id)
    (rows : List Document) :
    (upsertRow row rows).find? (hasId other) = rows.find? (hasId other) := by
  rw [upsertRow_of_id hid]
  have hrow : hasId other row = false := by
    simp only [hasId, hid, beq_eq_false_iff_ne, ne_eq, Option.some.injEq]
    exact hne.symm
  induction rows with
  | nil => simp [replaceOrAppend, hrow]
  | cons r rows ih =>
    unfold replaceOrAppend
    by_cases hr : hasId id r
    · have hother : hasId other r = false := by
        rw [← hrow]
        simp only [hasId, hid, hasId_iff.1 hr]
      simp [hr, hrow, hother]
    · simp only [hr, Bool.false_eq_true, if_false, List.find?_cons, ih]

/-! ## Rows pushed in a row -/

/-- The row of an id is the last that was pushed with it, if any was. -/
theorem find?_upsertAll (hpushed : ∀ row ∈ pushed, ∃ id, row.id? = some id)
    (rows : List Document) (other : String) :
    (upsertAll rows pushed).find? (hasId other) =
      (pushed.reverse.find? (hasId other)).or (rows.find? (hasId other)) := by
  induction pushed generalizing rows with
  | nil => simp
  | cons row pushed ih =>
    obtain ⟨⟨id, hid⟩, hpushed⟩ := List.forall_mem_cons.1 hpushed
    rw [upsertAll_cons, ih hpushed, List.reverse_cons, List.find?_append, Option.or_assoc]
    congr 1
    by_cases hne : other = id
    · have hself : hasId id row = true := hasId_iff.2 hid
      rw [hne, find?_upsertRow_self hid]
      simp [hself]
    · have hrow : hasId other row = false := by
        simp only [hasId, hid, beq_eq_false_iff_ne, ne_eq, Option.some.injEq]
        exact Ne.symm hne
      rw [find?_upsertRow_of_ne hid hne]
      simp [hrow]

theorem map_id?_upsertAll (hpushed : ∀ row ∈ pushed, row.id? ∈ rows.map Document.id?)
    (hids : ∀ row ∈ pushed, ∃ id, row.id? = some id) :
    (upsertAll rows pushed).map Document.id? = rows.map Document.id? := by
  induction pushed generalizing rows with
  | nil => rfl
  | cons row pushed ih =>
    obtain ⟨hrow, hpushed⟩ := List.forall_mem_cons.1 hpushed
    obtain ⟨⟨id, hid⟩, hids⟩ := List.forall_mem_cons.1 hids
    have hheld : rows.any (hasId id) = true := any_hasId_iff.2 (hid ▸ hrow)
    have hsame : (upsertRow row rows).map Document.id? = rows.map Document.id? := by
      rw [map_id?_upsertRow hid, if_pos hheld]
    rw [upsertAll_cons, ih (hsame.symm ▸ hpushed) hids, hsame]

/-- Rows with distinct ids are known by the order of the ids and the row of each. -/
theorem eq_of_ids (h : Keyed rows) (hids : rows'.map Document.id? = rows.map Document.id?)
    (hfind : ∀ id, rows'.find? (hasId id) = rows.find? (hasId id)) : rows' = rows := by
  induction rows generalizing rows' with
  | nil => exact List.map_eq_nil_iff.1 hids
  | cons r rows ih =>
    cases rows' with
    | nil => simp at hids
    | cons r' rows' =>
      simp only [List.map_cons, List.cons.injEq] at hids
      obtain ⟨hid', hids⟩ := hids
      obtain ⟨id, hid⟩ := h.ids r List.mem_cons_self
      have hr : hasId id r = true := hasId_iff.2 hid
      have hr' : hasId id r' = true := hasId_iff.2 (hid' ▸ hid)
      obtain rfl : r' = r := by simpa [hr, hr'] using hfind id
      have hfresh : some id ∉ rows.map Document.id? := hid ▸ (List.nodup_cons.1 h.nodup).1
      refine congrArg _ (ih h.tail hids fun other => ?_)
      by_cases hother : hasId other r' = true
      · obtain rfl : other = id := Option.some.inj ((hasId_iff.1 hother).symm.trans hid)
        have hnone : ∀ l : List Document, l.map Document.id? = rows.map Document.id? →
            l.find? (hasId other) = none := fun l hl => by
          refine List.find?_eq_none.2 fun x hx hxid => hfresh ?_
          rw [← hl, ← hasId_iff.1 hxid]
          exact List.mem_map_of_mem hx
        rw [hnone rows' hids, hnone rows rfl]
      · simpa [hother] using hfind other

/-! ## What is covered -/

/-- Whether the last of the pushed rows of each id is the row that is held. -/
structure Covered (rows pushed : List Document) : Prop where
  ids : ∀ row ∈ pushed, ∃ id, row.id? = some id
  last : ∀ id row, pushed.reverse.find? (hasId id) = some row → rows.find? (hasId id) = some row

theorem covered_nil (rows : List Document) : Covered rows [] := ⟨by simp, by simp⟩

/-- Pushing what is covered changes nothing. -/
theorem upsertAll_of_covered (h : Keyed rows) (hcovered : Covered rows pushed) :
    upsertAll rows pushed = rows := by
  refine eq_of_ids h (map_id?_upsertAll (fun row hrow => ?_) hcovered.ids) fun id => ?_
  · obtain ⟨id, hid⟩ := hcovered.ids row hrow
    cases hlast : pushed.reverse.find? (hasId id) with
    | none =>
      exact absurd (hasId_iff.2 hid) (List.find?_eq_none.1 hlast row (List.mem_reverse.2 hrow))
    | some last =>
      have hheld := hcovered.last id last hlast
      rw [hid, ← hasId_iff.1 (List.find?_some hheld)]
      exact List.mem_map_of_mem (List.mem_of_find?_eq_some hheld)
  · rw [find?_upsertAll hcovered.ids]
    cases hlast : pushed.reverse.find? (hasId id) with
    | none => rfl
    | some last => exact (hcovered.last id last hlast).symm

/-- A row that is written and pushed is covered, and covers what was pushed before. -/
theorem covered_write (hcovered : Covered rows pushed) (hid : row.id? = some id) :
    Covered (upsertRow row rows) (pushed ++ [row]) := by
  refine ⟨List.forall_mem_append.2 ⟨hcovered.ids, by simp [hid]⟩, fun other last hlast => ?_⟩
  rw [List.reverse_append, List.reverse_singleton, List.singleton_append, List.find?_cons] at hlast
  by_cases hne : other = id
  · have hself : hasId id row = true := hasId_iff.2 hid
    rw [hne, hself] at hlast
    rw [hne, find?_upsertRow_self hid, ← hlast]
  · have hrow : hasId other row = false := by
      simp only [hasId, hid, beq_eq_false_iff_ne, ne_eq, Option.some.injEq]
      exact Ne.symm hne
    rw [hrow] at hlast
    rw [find?_upsertRow_of_ne hid hne]
    exact hcovered.last other last hlast

theorem Covered.tail {r : Document} (h : Covered rows (r :: pushed)) : Covered rows pushed := by
  refine ⟨fun row hrow => h.ids row (List.mem_cons_of_mem _ hrow), fun id row hlast => ?_⟩
  refine h.last id row ?_
  rw [List.reverse_cons, List.find?_append, hlast, Option.some_or]

/-! ## A selection of the rows -/

/-- Pushing a row and then selecting is selecting and then pushing it, if it is selected, when the
row it replaces is selected just as it is. -/
theorem filter_upsertRow (hid : row.id? = some id)
    (hsame : ∀ r ∈ rows, r.id? = some id → p r = p row) :
    (upsertRow row rows).filter p =
      if p row then upsertRow row (rows.filter p) else rows.filter p := by
  simp only [upsertRow_of_id hid]
  induction rows with
  | nil => by_cases hp : p row <;> simp [replaceOrAppend, hp]
  | cons r rows ih =>
    obtain ⟨hr, hrows⟩ := List.forall_mem_cons.1 hsame
    have ih := ih hrows
    by_cases hrid : hasId id r
    · have hpr : p r = p row := hr (hasId_iff.1 hrid)
      by_cases hp : p row <;> simp [replaceOrAppend, hrid, hpr, hp]
    · by_cases hpr : p r <;> by_cases hp : p row <;>
        simp only [replaceOrAppend, hrid, hpr, hp, Bool.false_eq_true, if_false, if_true,
          List.filter_cons] at ih ⊢ <;> simp [ih]

/-- Whether pushed rows are selected just as the held rows with their ids are. -/
def Agrees (p : Document → Bool) (rows pushed : List Document) : Prop :=
  ∀ row ∈ pushed, ∀ r ∈ rows, r.id? = row.id? → p r = p row

theorem find?_filter_of_find? {q : Document → Bool} {l : List Document} {a : Document}
    (h : l.find? q = some a) (ha : p a = true) : (l.filter p).find? q = some a := by
  induction l with
  | nil => cases h
  | cons b l ih =>
    rw [List.find?_cons] at h
    by_cases hq : q b
    · simp only [hq] at h
      obtain rfl := Option.some.inj h
      simp [ha, hq]
    · simp only [hq] at h
      by_cases hp : p b <;> simp [hp, hq, ih h]

/-- What is selected of the pushed rows is covered by what is selected of the rows. -/
theorem covered_filter (hcovered : Covered rows pushed) (hagrees : Agrees p rows pushed) :
    Covered (rows.filter p) (pushed.filter p) := by
  refine ⟨fun row hrow => hcovered.ids row (List.mem_filter.1 hrow).1, fun id row hrow => ?_⟩
  have hmem := List.mem_of_find?_eq_some hrow
  rw [List.mem_reverse, List.mem_filter] at hmem
  have hid : row.id? = some id := hasId_iff.1 (List.find?_some hrow)
  cases hlast : pushed.reverse.find? (hasId id) with
  | none =>
    exact absurd (hasId_iff.2 hid) (List.find?_eq_none.1 hlast row (List.mem_reverse.2 hmem.1))
  | some last =>
    have hheld : rows.find? (hasId id) = some last := hcovered.last id last hlast
    have hlastId : last.id? = some id := hasId_iff.1 (List.find?_some hheld)
    have hp : p last = true := by
      rw [← hmem.2]
      exact hagrees row hmem.1 last (List.mem_of_find?_eq_some hheld) (hlastId.trans hid.symm)
    have hsame : row = last := by
      rw [← List.filter_reverse, find?_filter_of_find? hlast hp] at hrow
      exact (Option.some.inj hrow).symm
    rw [hsame]
    exact find?_filter_of_find? hheld hp

theorem Agrees.tail {r : Document} (h : Agrees p rows (r :: pushed)) : Agrees p rows pushed :=
  fun row hrow => h row (List.mem_cons_of_mem _ hrow)

theorem mem_upsertRow {r : Document} (hid : row.id? = some id) (h : Keyed rows)
    (hr : r ∈ upsertRow row rows) : r = row ∨ (r ∈ rows ∧ r.id? ≠ some id) := by
  have hkeyed := keyed_upsertRow h hid
  obtain ⟨other, hother⟩ := hkeyed.ids r hr
  have hfind : (upsertRow row rows).find? (hasId other) = some r := find?_of_keyed hkeyed hr hother
  by_cases hne : other = id
  · rw [hne, find?_upsertRow_self hid] at hfind
    exact .inl (Option.some.inj hfind).symm
  · rw [find?_upsertRow_of_ne hid hne] at hfind
    refine .inr ⟨List.mem_of_find?_eq_some hfind, ?_⟩
    rw [hother]
    exact fun heq => hne (Option.some.inj heq)

/-- A written row that is selected as the row it replaces keeps the pushed rows in agreement. -/
theorem agrees_write (h : Keyed rows) (hcovered : Covered rows pushed)
    (hagrees : Agrees p rows pushed) (hid : row.id? = some id)
    (hsame : ∀ r ∈ rows, r.id? = some id → p r = p row) :
    Agrees p (upsertRow row rows) (pushed ++ [row]) := by
  intro q hq r hr hrq
  rcases mem_upsertRow hid h hr with rfl | ⟨hr, hrid⟩
  · rcases List.mem_append.1 hq with hq | hq
    · -- The row that is replaced has the id of `q`, so that both agree with it.
      cases hlast : pushed.reverse.find? (hasId id) with
      | none =>
        exact absurd (hasId_iff.2 (hrq.symm.trans hid))
          (List.find?_eq_none.1 hlast q (List.mem_reverse.2 hq))
      | some last =>
        have hheld := hcovered.last id last hlast
        have hmem := List.mem_of_find?_eq_some hheld
        have hlastId : last.id? = some id := hasId_iff.1 (List.find?_some hheld)
        rw [← hsame last hmem hlastId]
        exact hagrees q hq last hmem (hlastId.trans (hid.symm.trans hrq))
    · rw [List.mem_singleton.1 hq]
  · rcases List.mem_append.1 hq with hq | hq
    · exact hagrees q hq r hr hrq
    · rw [List.mem_singleton.1 hq] at hrq
      exact absurd (hrq.trans hid) hrid

/-! ## Catching up -/

/-- Whether the rows that are shown become the selected rows that are held, once the selected ones
of the pushed rows are pushed onto them. -/
def CatchesUp (p : Document → Bool) (shown rows pushed : List Document) : Prop :=
  upsertAll shown (pushed.filter p) = rows.filter p

variable {shown : List Document}

/-- Rows that are read when every pushed row is covered need nothing of what was pushed. -/
theorem catchesUp_of_covered (h : Keyed rows) (hcovered : Covered rows pushed)
    (hagrees : Agrees p rows pushed) : CatchesUp p (rows.filter p) rows pushed :=
  upsertAll_of_covered (h.filter p) (covered_filter hcovered hagrees)

theorem CatchesUp.write (h : CatchesUp p shown rows pushed) (hid : row.id? = some id)
    (hsame : ∀ r ∈ rows, r.id? = some id → p r = p row) :
    CatchesUp p shown (upsertRow row rows) (pushed ++ [row]) := by
  rw [CatchesUp, filter_upsertRow hid hsame, List.filter_append, List.filter_cons, List.filter_nil]
  by_cases hp : p row = true
  · rw [if_pos hp, if_pos hp, upsertAll_append, h]
    rfl
  · rw [if_neg hp, if_neg hp, List.append_nil]
    exact h

theorem CatchesUp.apply (h : CatchesUp p shown rows (row :: pushed)) :
    CatchesUp p (if p row then upsertRow row shown else shown) rows pushed := by
  rw [CatchesUp, List.filter_cons] at h
  by_cases hp : p row = true
  · rw [if_pos hp] at h ⊢
    exact h
  · rw [if_neg hp] at h ⊢
    exact h

theorem CatchesUp.eq (h : CatchesUp p shown rows []) : shown = rows.filter p := h

end TrialBoard
