/-
This file counts the days of the Gregorian calendar.
-/

import Mathlib.Algebra.BigOperators.Group.List.Basic
import Mathlib.Tactic.IntervalCases

namespace BubbleOs.Calendar

def isLeap (year : Nat) : Bool := year % 4 = 0 ∧ (year % 100 ≠ 0 ∨ year % 400 = 0)

def yearDays (year : Nat) : Nat := if isLeap year then 366 else 365

def monthDays (year month : Nat) : Nat :=
  if month = 2 then (if isLeap year then 29 else 28)
  else if month = 4 ∨ month = 6 ∨ month = 9 ∨ month = 11 then 30
  else 31

/-- These are the days from the first day of 1970 to the first day of a year. -/
def daysBeforeYear (year : Nat) : Nat := ((List.range' 1970 (year - 1970)).map yearDays).sum

/-- These are the days of a year before a month. -/
def daysBeforeMonth (year month : Nat) : Nat := ((List.range' 1 (month - 1)).map (monthDays year)).sum

/-- These are the days from the first day of 1970 to a date. -/
def daysBefore (year month day : Nat) : Nat := daysBeforeYear year + daysBeforeMonth year month + (day - 1)

/-- These are the days of all years up to a year, with one more in every leap year. -/
def leapDays (year : Int) : Int := 365 * year + year / 4 - year / 100 + year / 400

/-- These are the days from the first day of 1970 to a date when every year begins with March. -/
def civilDays (year : Int) (month day : Nat) : Int :=
  if month ≤ 2 then leapDays (year - 1) + (153 * (month + 9) + 2) / 5 + day - 719469
  else leapDays year + (153 * (month - 3) + 2) / 5 + day - 719469

theorem yearDays_eq (year : Nat) : (yearDays year : Int) = leapDays year - leapDays (year - 1) := by
  simp only [yearDays, isLeap, leapDays, decide_eq_true_eq]
  split <;> omega

theorem daysBeforeYear_eq (years : Nat) :
    (daysBeforeYear (1970 + years) : Int) = leapDays ((1970 + years : Nat) - 1) - 719162 := by
  induction years with
  | zero => rfl
  | succ years ih =>
    have step : daysBeforeYear (1970 + (years + 1)) = daysBeforeYear (1970 + years) + yearDays (1970 + years) := by
      simp only [daysBeforeYear, Nat.add_sub_cancel_left, List.range'_concat, List.map_append, List.map_cons,
        List.map_nil, List.sum_append, List.sum_cons, List.sum_nil, Nat.add_zero, Nat.one_mul]
    have next : ((1970 + (years + 1) : Nat) : Int) - 1 = (1970 + years : Nat) := by omega
    rw [step, next, Nat.cast_add, ih, yearDays_eq]
    omega

/-- From March on the months before a month have a closed form. -/
theorem daysBeforeMonth_eq (year : Nat) {month : Nat} (first : 1 ≤ month) (last : month ≤ 12) :
    daysBeforeMonth year month =
      if month ≤ 2 then 31 * (month - 1) else (153 * (month - 3) + 2) / 5 + (yearDays year - 306) := by
  unfold daysBeforeMonth yearDays
  cases leap : isLeap year <;> interval_cases month <;> simp [List.range', monthDays, leap]

/-- The count of the days since 1970 has a closed form. -/
theorem daysBefore_eq {year month day : Nat} (later : 1970 ≤ year) (first : 1 ≤ month) (last : month ≤ 12)
    (positive : 1 ≤ day) : (daysBefore year month day : Int) = civilDays year month day := by
  obtain ⟨years, rfl⟩ := Nat.exists_eq_add_of_le later
  have count := daysBeforeYear_eq years
  have months := daysBeforeMonth_eq (1970 + years) first last
  have length := yearDays_eq (1970 + years)
  have long : 365 ≤ yearDays (1970 + years) := by unfold yearDays; split <;> omega
  rw [daysBefore, months, civilDays]
  split <;> omega

/-- The rule of the calendar holds for every year. -/
def isLeapYear (year : Int) : Bool := year % 4 = 0 ∧ (year % 100 ≠ 0 ∨ year % 400 = 0)

def monthLength (year : Int) (month : Nat) : Nat :=
  if month = 2 then (if isLeapYear year then 29 else 28)
  else if month = 4 ∨ month = 6 ∨ month = 9 ∨ month = 11 then 30
  else 31

theorem monthLength_bounds (year : Int) (month : Nat) : 1 ≤ monthLength year month ∧ monthLength year month ≤ 31 := by
  unfold monthLength
  split_ifs <;> decide

/-- This is a day of the proleptic calendar. -/
structure Date where
  year : Int
  month : Nat
  day : Nat
  months : 1 ≤ month ∧ month ≤ 12
  days : 1 ≤ day ∧ day ≤ monthLength year month

/-- The next day is in the same month, the next month or the next year. -/
def Date.next (date : Date) : Date :=
  if inMonth : date.day < monthLength date.year date.month then
    ⟨date.year, date.month, date.day + 1, date.months, Nat.succ_pos _, inMonth⟩
  else if inYear : date.month < 12 then
    ⟨date.year, date.month + 1, 1, ⟨Nat.succ_pos _, inYear⟩, Nat.le_refl 1, (monthLength_bounds _ _).1⟩
  else ⟨date.year + 1, 1, 1, by decide, Nat.le_refl 1, (monthLength_bounds _ _).1⟩

theorem Date.next_year (date : Date) : date.year ≤ date.next.year ∧ date.next.year ≤ date.year + 1 := by
  unfold Date.next
  split_ifs <;> dsimp only <;> omega

theorem leapDays_leap (year : Int) : leapDays year = leapDays (year - 1) + if isLeapYear year then 366 else 365 := by
  simp only [leapDays, isLeapYear, decide_eq_true_eq]
  split <;> omega

/-- The next month begins on the day after the last one of a month. -/
theorem civilDays_month (year : Int) {month : Nat} (first : 1 ≤ month) (inYear : month < 12) :
    civilDays year (month + 1) 1 = civilDays year month (monthLength year month) + 1 := by
  by_cases february : month = 2
  · have step := leapDays_leap year
    subst february
    cases leap : isLeapYear year <;> simp [civilDays, monthLength, leap] at step ⊢ <;> omega
  · interval_cases month <;> simp [civilDays, monthLength] at february ⊢ <;> omega

theorem civilDays_year (year : Int) :
    civilDays (year + 1) 1 1 = civilDays year 12 (monthLength year 12) + 1 := by
  simp [civilDays, monthLength]
  omega

/-- The closed form counts one more on the next day. -/
theorem civilDays_next (date : Date) :
    civilDays date.next.year date.next.month date.next.day = civilDays date.year date.month date.day + 1 := by
  obtain ⟨year, month, day, ⟨first, last⟩, positive, inside⟩ := date
  unfold Date.next
  by_cases inMonth : day < monthLength year month
  · rw [dif_pos inMonth]
    unfold civilDays
    dsimp only
    split <;> omega
  · obtain rfl : day = monthLength year month := by omega
    rw [dif_neg inMonth]
    by_cases inYear : month < 12
    · rw [dif_pos inYear]
      exact civilDays_month year first inYear
    · obtain rfl : month = 12 := by omega
      rw [dif_neg inYear]
      exact civilDays_year year

end BubbleOs.Calendar
