import TrialBoard.Dashboard.ExperimentView

/-!
# Lists of rows

Rows that are pushed one after the other replace the first row with their id, or come at the end.
This is what a dashboard does with its lists, and what a store does with its tables.
-/

namespace TrialBoard

open Document
open ExperimentView (upsertRow)

/-- Rows pushed one after the other. -/
def upsertAll (rows pushed : List Document) : List Document :=
  pushed.foldl (fun rows row => upsertRow row rows) rows

@[simp] theorem upsertAll_nil (rows : List Document) : upsertAll rows [] = rows := rfl

@[simp] theorem upsertAll_cons (rows : List Document) (row : Document) (pushed : List Document) :
    upsertAll rows (row :: pushed) = upsertAll (upsertRow row rows) pushed := rfl

theorem upsertAll_append (rows pushed later : List Document) :
    upsertAll rows (pushed ++ later) = upsertAll (upsertAll rows pushed) later :=
  List.foldl_append

theorem Document.hasId_iff {id : String} {row : Document} :
    hasId id row = true ↔ row.id? = some id := by
  simp [hasId]

theorem upsertRow_of_id {row : Document} {id : String} (h : row.id? = some id)
    (rows : List Document) : upsertRow row rows = replaceOrAppend row id rows := by
  simp [upsertRow, h]

theorem replaceOrAppend_of_find?_eq_none {id : String} {rows : List Document}
    (h : rows.find? (hasId id) = none) (row : Document) :
    replaceOrAppend row id rows = rows ++ [row] := by
  induction rows with
  | nil => rfl
  | cons r rows ih =>
    rw [List.find?_cons] at h
    split at h
    · cases h
    · rename_i hr
      simp [replaceOrAppend, hr, ih h]

/-! ## Which ids are held -/

theorem any_hasId_replaceOrAppend {row : Document} {id : String} (h : row.id? = some id)
    (rows : List Document) (other : String) :
    (replaceOrAppend row id rows).any (hasId other) =
      (rows.any (hasId other) || hasId other row) := by
  induction rows with
  | nil => simp [replaceOrAppend]
  | cons r rows ih =>
    unfold replaceOrAppend
    by_cases hr : hasId id r
    · have hsame : hasId other r = hasId other row := by
        simp only [hasId, hasId_iff.1 hr, h]
      simp only [hr, if_true, List.any_cons, hsame]
      cases hasId other row <;> simp
    · simp only [hr, Bool.false_eq_true, if_false, List.any_cons, ih, Bool.or_assoc]

theorem any_hasId_upsertRow (row : Document) (rows : List Document) (other : String) :
    (upsertRow row rows).any (hasId other) = (rows.any (hasId other) || hasId other row) := by
  cases h : row.id? with
  | some id => rw [upsertRow_of_id h, any_hasId_replaceOrAppend h]
  | none => simp [upsertRow, h]

theorem any_hasId_upsertAll (rows pushed : List Document) (other : String) :
    (upsertAll rows pushed).any (hasId other) =
      (rows.any (hasId other) || pushed.any (hasId other)) := by
  induction pushed generalizing rows with
  | nil => simp
  | cons row pushed ih => rw [upsertAll_cons, ih, any_hasId_upsertRow, List.any_cons, Bool.or_assoc]

end TrialBoard
