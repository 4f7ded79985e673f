import Mathlib
import TrialBoard.Time.Instant

/-!
# Days and dates

Every day has a date of the calendar, and the date is that of no other day. An era has 400 years,
which begin in March; `Date.yearStart` is the first day of each of them.
-/

namespace TrialBoard.Date

/-! ## The years of an era -/

/-- The day of an era on which one of its years begins. -/
def yearStart (y : Nat) : Nat := 365 * y + y / 4 - y / 100 + y / 400

/-- How many days of an era come before one of them if its leap days are not counted. -/
def plainDays (n : Nat) : Nat := n - n / 1460 + n / 36524 - n / 146096

theorem plainDays_mono : Monotone plainDays := by
  refine monotone_nat_of_le_succ fun n => ?_
  unfold plainDays
  omega

theorem le_plainDays_yearStart : ∀ y ≤ 400, 365 * y ≤ plainDays (yearStart y) := by
  decide +kernel

theorem plainDays_pred_yearStart_lt : ∀ y ≤ 400, 0 < y →
    plainDays (yearStart y - 1) < 365 * y := by
  decide +kernel

/-- The year of a day of an era. -/
def yearOfEra (n : Nat) : Nat := plainDays n / 365

theorem yearOfEra_lt {n : Nat} (h : n < 146097) : yearOfEra n < 400 := by
  have hlast : plainDays 146096 = 145999 := by decide
  have hle : plainDays n ≤ plainDays 146096 := plainDays_mono (by omega)
  unfold yearOfEra
  omega

theorem yearStart_le {n : Nat} (h : n < 146097) : yearStart (yearOfEra n) ≤ n := by
  by_contra hnot
  have hyear := yearOfEra_lt h
  have hpos : 0 < yearOfEra n := by
    refine Nat.pos_of_ne_zero fun hzero => hnot ?_
    rw [hzero]
    exact Nat.zero_le n
  have hend := plainDays_pred_yearStart_lt _ hyear.le hpos
  have hle : plainDays n ≤ plainDays (yearStart (yearOfEra n) - 1) := plainDays_mono (by omega)
  unfold yearOfEra at hend hle
  omega

theorem lt_yearStart_succ {n : Nat} (h : n < 146097) : n < yearStart (yearOfEra n + 1) := by
  by_contra hnot
  have hstart := le_plainDays_yearStart (yearOfEra n + 1) (yearOfEra_lt h)
  have hle : plainDays (yearStart (yearOfEra n + 1)) ≤ plainDays n := plainDays_mono (by omega)
  unfold yearOfEra at hstart hle
  omega

/-- The number of days of a year that begins in March. -/
def yearLength (year : Int) : Nat := if isLeap (year + 1) then 366 else 365

/-- The calendar repeats itself in every era. -/
theorem isLeap_era (era year : Int) : isLeap (era * 400 + year) = isLeap year := by
  have h4 : (era * 400 + year) % 4 = year % 4 := by omega
  have h100 : (era * 400 + year) % 100 = year % 100 := by omega
  have h400 : (era * 400 + year) % 400 = year % 400 := by omega
  rw [isLeap, isLeap, h4, h100, h400]

theorem yearLength_era (era year : Int) : yearLength (era * 400 + year) = yearLength year := by
  rw [yearLength, yearLength, Int.add_assoc, isLeap_era]

theorem yearStart_succ : ∀ y < 400, yearStart (y + 1) = yearStart y + yearLength y := by
  decide +kernel

/-! ## The days of a year -/

/-- The date of a day of a year that begins in March. -/
def ofYearDay (year : Int) (n : Nat) : Date :=
  let shifted := (5 * n + 2) / 153
  let month := if shifted < 10 then shifted + 3 else shifted - 9
  { year := year + (if month ≤ 2 then 1 else 0)
    month
    day := n - (153 * shifted + 2) / 5 + 1 }

/-- Whether a date is one of the calendar. -/
structure IsDate (d : Date) : Prop where
  month_pos : 1 ≤ d.month
  month_le : d.month ≤ 12
  day_pos : 1 ≤ d.day
  day_le : d.day ≤ daysInMonth d.year d.month

theorem month_ofYearDay (year : Int) (n : Nat) :
    (ofYearDay year n).month = (ofYearDay 0 n).month := rfl

theorem day_ofYearDay (year : Int) (n : Nat) : (ofYearDay year n).day = (ofYearDay 0 n).day := rfl

theorem month_of_lt : ∀ n < 366, 1 ≤ (ofYearDay 0 n).month ∧ (ofYearDay 0 n).month ≤ 12 := by
  decide +kernel

/-- A day of a common year is in a month of a common year. -/
theorem day_le_common : ∀ n < 365,
    (ofYearDay 0 n).day ≤ daysInMonth 1 (ofYearDay 0 n).month := by
  decide +kernel

theorem daysInMonth_le (year : Int) (month : Nat) :
    daysInMonth 1 month ≤ daysInMonth year month := by
  have hcommon : isLeap 1 = false := by decide
  unfold daysInMonth
  rw [hcommon]
  split
  · rw [if_neg Bool.false_ne_true]
    split <;> decide
  · exact Nat.le_refl _

theorem daysInMonth_le_31 (year : Int) (month : Nat) : daysInMonth year month ≤ 31 := by
  unfold daysInMonth
  split
  · split <;> decide
  · split <;> decide

theorem isDate_ofYearDay {year : Int} {n : Nat} (h : n < yearLength year) :
    (ofYearDay year n).IsDate := by
  have hlt : n < 366 := by
    unfold yearLength at h
    split at h <;> omega
  obtain ⟨hpos, hle⟩ := month_of_lt n hlt
  refine ⟨hpos, hle, Nat.le_add_left _ _, ?_⟩
  by_cases hcommon : n < 365
  · exact (day_le_common n hcommon).trans (daysInMonth_le _ _)
  · -- The last day of a leap year, which is in February of the next year.
    obtain rfl : n = 365 := by omega
    have hleap : isLeap (year + 1) = true := by
      unfold yearLength at h
      split at h
      · assumption
      · omega
    have hdate : ofYearDay year 365 = ⟨year + 1, 2, 29⟩ := rfl
    rw [hdate]
    simp [daysInMonth, hleap]

theorem toDay_ofYearDay (era : Int) {y n : Nat} (hy : y < 400) (hn : n < 366) :
    toDay (ofYearDay (era * 400 + y) n) =
      era * 146097 + (yearStart y : Nat) + n - epochOffset := by
  have hshift : ∀ n < 366, (153 * (((ofYearDay 0 n).month + 9) % 12) + 2) / 5 +
      ((ofYearDay 0 n).day - 1) = n := by decide +kernel
  have hyear : (if (ofYearDay (era * 400 + y) n).month ≤ 2
      then (ofYearDay (era * 400 + y) n).year - 1 else (ofYearDay (era * 400 + y) n).year) =
        era * 400 + y := by
    unfold ofYearDay
    dsimp only
    split <;> omega
  unfold toDay
  rw [hyear]
  have hday := hshift n hn
  rw [← month_ofYearDay (era * 400 + y), ← day_ofYearDay (era * 400 + y)] at hday
  simp only
  rw [hday]
  unfold yearStart
  omega

/-! ## Dates of days -/

/-- Every day is in a year of an era. -/
theorem exists_yearDay (day : Int) : ∃ (era : Int) (y n : Nat), y < 400 ∧
    n < yearLength (era * 400 + y) ∧ day = era * 146097 + (yearStart y : Nat) + n - epochOffset ∧
    ofDay day = ofYearDay (era * 400 + y) n := by
  obtain ⟨m, hm⟩ : ∃ m : Nat, (day + epochOffset) % 146097 = m :=
    ⟨((day + epochOffset) % 146097).toNat, by omega⟩
  have hlt : m < 146097 := by omega
  have hstart := yearStart_le hlt
  have hend := lt_yearStart_succ hlt
  have hyear := yearOfEra_lt hlt
  rw [yearStart_succ _ hyear, ← yearLength_era ((day + epochOffset) / 146097)] at hend
  refine ⟨(day + epochOffset) / 146097, yearOfEra m, m - yearStart (yearOfEra m), hyear, by omega,
    by omega, ?_⟩
  have hplain : ((m : Int) - m / 1460 + m / 36524 - m / 146096) / 365 = (yearOfEra m : Nat) := by
    unfold yearOfEra plainDays
    omega
  have hrest : ((m : Int) - (365 * (yearOfEra m : Nat) + ((yearOfEra m : Nat) : Int) / 4 -
      ((yearOfEra m : Nat) : Int) / 100)).toNat = m - yearStart (yearOfEra m) := by
    unfold yearStart
    omega
  unfold ofDay ofYearDay
  simp only [hm, hplain, hrest]

theorem yearLength_le (year : Int) : yearLength year ≤ 366 := by
  unfold yearLength
  split <;> omega

/-- The date of a day is in the calendar. -/
theorem isDate_ofDay (day : Int) : (ofDay day).IsDate := by
  obtain ⟨era, y, n, -, hn, -, hdate⟩ := exists_yearDay day
  rw [hdate]
  exact isDate_ofYearDay hn

/-- The date of a day is that of no other day. -/
@[simp] theorem toDay_ofDay (day : Int) : (ofDay day).toDay = day := by
  obtain ⟨era, y, n, hy, hn, hday, hdate⟩ := exists_yearDay day
  rw [hdate, toDay_ofYearDay era hy (hn.trans_le (yearLength_le _)), ← hday]

end TrialBoard.Date
