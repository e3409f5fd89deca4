import Mathlib.Tactic.IntervalCases
import Mathlib.Algebra.BigOperators.Group.List.Basic

/-! The Gregorian calendar, with days counted from 1 January 1970. -/
namespace NCam.Lib.Calendar

def leap (y : ℕ) : Bool := y % 4 = 0 && (y % 100 ≠ 0 || y % 400 = 0)

def yearLength (y : ℕ) : ℕ := if leap y then 366 else 365

/-- Months are counted from 0. -/
def monthLength (y m : ℕ) : ℕ :=
  [31, if leap y then 29 else 28, 31, 30, 31, 30, 31, 31, 30, 31, 30, 31].getD m 0

/-- The days of the year before a month. -/
def monthStart (y m : ℕ) : ℕ := ((List.range m).map (monthLength y)).sum

/-- The days before a year. -/
def yearStart (y : ℕ) : ℕ := ((List.range' 1970 (y - 1970)).map yearLength).sum

/-- A date of the calendar. -/
structure Date where
  year : ℕ
  month : ℕ
  day : ℕ
  month_lt : month < 12
  day_pos : 1 ≤ day
  day_le : day ≤ monthLength year month

/-- Days of the year are counted from 0. -/
def Date.yearDay (d : Date) : ℕ := monthStart d.year d.month + (d.day - 1)

def Date.dayNumber (d : Date) : ℕ := yearStart d.year + d.yearDay

/-- The first day was a Thursday, and Sunday is 0. -/
def Date.weekday (d : Date) : ℕ := (4 + d.dayNumber) % 7

variable {y m : ℕ}

@[simp] theorem yearStart_base : yearStart 1970 = 0 := rfl

theorem yearStart_succ (hy : 1970 ≤ y) : yearStart (y + 1) = yearStart y + yearLength y := by
  have hone : y + 1 - 1970 = y - 1970 + 1 := by omega
  have hlast : 1970 + (y - 1970) = y := by omega
  simp [yearStart, hone, List.range'_1_concat, hlast]

/-- A year has at least 365 days. -/
theorem le_yearStart : 365 * (y - 1970) ≤ yearStart y := by
  unfold yearStart
  have hsum : ∀ l : List ℕ, 365 * l.length ≤ (l.map yearLength).sum := by
    intro l
    induction l with
    | nil => simp
    | cons a l ih =>
      have hlength : 365 ≤ yearLength a := by
        unfold yearLength
        split_ifs <;> omega
      simp only [List.length_cons, List.map_cons, List.sum_cons]
      omega
  simpa using hsum (List.range' 1970 (y - 1970))

theorem yearStart_mono {x : ℕ} (h : x ≤ y) : yearStart x ≤ yearStart y := by
  unfold yearStart
  have hsplit : y - 1970 = (x - 1970) + ((y - 1970) - (x - 1970)) := by omega
  rw [hsplit, ← List.range'_append_1, List.map_append, List.sum_append]
  omega

theorem monthStart_succ : monthStart y (m + 1) = monthStart y m + monthLength y m := by
  simp [monthStart, List.range_succ]

end NCam.Lib.Calendar
