import Mathlib.Order.Monotone.Basic
import Mathlib.Tactic.Common

/-!
# The Gregorian calendar

Dates with a time of day, and the seconds from the start of 1970 to them. A month is a number from
0 on, and a day of a month one from 1 on. Day 0 of the week is a Sunday.
-/

namespace Xinu.Lib.Calendar

set_option autoImplicit false

def IsLeap (year : Nat) : Prop := year % 4 = 0 ∧ (year % 100 ≠ 0 ∨ year % 400 = 0)

instance (year : Nat) : Decidable (IsLeap year) := inferInstanceAs (Decidable (_ ∧ _))

def yearLength (year : Nat) : Nat := if IsLeap year then 366 else 365

def monthLength (year : Nat) : Nat → Nat
  | 1 => if IsLeap year then 29 else 28
  | 3 | 5 | 8 | 10 => 30
  | _ => 31

/-- The days of the first years from 1970 on -/
def daysOfYears : Nat → Nat
  | 0 => 0
  | years + 1 => daysOfYears years + yearLength (1970 + years)

/-- The days of the first months of a year -/
def daysOfMonths (year : Nat) : Nat → Nat
  | 0 => 0
  | months + 1 => daysOfMonths year months + monthLength year months

structure Date where
  year : Nat
  month : Nat
  day : Nat
  hour : Nat
  minute : Nat
  second : Nat
  deriving DecidableEq

namespace Date

variable (date : Date)

structure Valid : Prop where
  year : 1970 ≤ date.year
  month : date.month < 12
  day : 1 ≤ date.day ∧ date.day ≤ monthLength date.year date.month
  hour : date.hour < 24
  minute : date.minute < 60
  second : date.second < 60

def dayNumber : Nat :=
  daysOfYears (date.year - 1970) + daysOfMonths date.year date.month + (date.day - 1)

/-- The first day of 1970 was a Thursday. -/
def weekday : Nat := (date.dayNumber + 4) % 7

def seconds : Nat :=
  86400 * date.dayNumber + 3600 * date.hour + 60 * date.minute + date.second

/-- The date that lies a number of seconds behind the start of 1970 -/
def Lies (seconds : Nat) : Prop := date.Valid ∧ date.seconds = seconds

end Date

section Lengths

variable {year years month : Nat}

/-- Up to 2099 every fourth year is a leap year. -/
theorem is_leap_iff (late : 1970 ≤ year) (early : year < 2100) : IsLeap year ↔ year % 4 = 0 := by
  unfold IsLeap
  omega

theorem days_of_years (early : years ≤ 130) :
    daysOfYears years = 365 * years + (years + 1) / 4 := by
  induction years with
  | zero => rfl
  | succ years induction =>
      rw [daysOfYears, induction (by omega), yearLength]
      by_cases leap : IsLeap (1970 + years)
      · rw [if_pos leap]
        have fourth := (is_leap_iff (by omega) (by omega)).mp leap
        omega
      · rw [if_neg leap]
        have notFourth := mt (is_leap_iff (by omega) (by omega)).mpr leap
        omega

theorem days_of_twelve_months : daysOfMonths year 12 = yearLength year := by
  by_cases leap : IsLeap year <;> simp [daysOfMonths, monthLength, yearLength, leap]

theorem days_of_years_mono {fewer : Nat} (less : fewer ≤ years) :
    daysOfYears fewer ≤ daysOfYears years :=
  monotone_nat_of_le_succ (fun _ => Nat.le_add_right _ _) less

theorem days_of_months_mono {fewer : Nat} (year : Nat) (less : fewer ≤ month) :
    daysOfMonths year fewer ≤ daysOfMonths year month :=
  monotone_nat_of_le_succ (fun _ => Nat.le_add_right _ _) less

theorem month_length_positive : 28 ≤ monthLength year month ∧ monthLength year month ≤ 31 := by
  unfold monthLength
  split
  · split <;> omega
  all_goals omega

theorem day_number_of_lies {date : Date} {total : Nat} (lies : date.Lies total) :
    date.dayNumber = total / 86400 := by
  obtain ⟨⟨_, _, _, hour, minute, second⟩, same⟩ := lies
  unfold Date.seconds at same
  omega

end Lengths

section Years

variable {date : Date}

theorem day_of_month (valid : date.Valid) :
    daysOfMonths date.year date.month + date.day ≤ daysOfMonths date.year (date.month + 1) :=
  Nat.add_le_add_left valid.day.2 _

/-- A date lies in its year. -/
theorem seconds_in_year (valid : date.Valid) :
    86400 * daysOfYears (date.year - 1970) ≤ date.seconds ∧
      date.seconds < 86400 * daysOfYears (date.year - 1970 + 1) := by
  have inMonth := day_of_month valid
  have inYear := days_of_months_mono date.year (show date.month + 1 ≤ 12 from valid.month)
  have late := valid.year
  have year : 1970 + (date.year - 1970) = date.year := by omega
  have positive := valid.day.1
  have hour := valid.hour
  have minute := valid.minute
  have second := valid.second
  rw [days_of_twelve_months] at inYear
  simp only [daysOfYears, year, Date.seconds, Date.dayNumber]
  omega

/-- What lies between two dates of a year is of that year. -/
theorem year_between {first last : Date} {total : Nat} (lies : date.Lies total)
    (start : first.Valid) (stop : last.Valid) (same : first.year = last.year)
    (behind : first.seconds ≤ total) (before : total < last.seconds) : date.year = first.year := by
  obtain ⟨valid, here⟩ := lies
  have range := seconds_in_year valid
  have startRange := seconds_in_year start
  have stopRange := seconds_in_year stop
  rw [← same] at stopRange
  have late := valid.year
  have startLate := start.year
  rcases Nat.lt_trichotomy date.year first.year with less | equal | more
  · have order : daysOfYears (date.year - 1970 + 1) ≤ daysOfYears (first.year - 1970) :=
      days_of_years_mono (by omega)
    omega
  · exact equal
  · have order : daysOfYears (first.year - 1970 + 1) ≤ daysOfYears (date.year - 1970) :=
      days_of_years_mono (by omega)
    omega

end Years

end Xinu.Lib.Calendar
