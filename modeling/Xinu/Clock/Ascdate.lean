import Xinu.Lib.Calendar
import Mathlib.Tactic.IntervalCases

/-!
# Dates as text

`ascdate` computes the fields that it formats from a number of seconds. The hour of daylight saving
time is added to the fields at the end, when the day of the week and the month are there already.
-/

namespace Xinu.Clock.Ascdate

open Xinu.Lib.Calendar

set_option autoImplicit false

section Definitions

def secperdy : Nat := 86400

def secperhr : Nat := 3600

def secpermn : Nat := 60

/-- `isleap` of `date.h`, for 1970 to 2099 -/
def isleap (year : Nat) : Bool := year % 4 == 0

/-- `Date.dt_msize` -/
def dtMsize (month : Nat) : Nat := [31, 28, 31, 30, 31, 30, 31, 31, 30, 31, 30, 31].getD month 0

/-- `Date.dt_daylight` -/
inductive Daylight where
  | off
  | on
  | auto
  deriving DecidableEq

/-- What `sprintf` gets, with the index into `dt_dnam`, that into `dt_mnam` and those at which
`dt_msize` has been read. -/
structure Printed where
  dayofweek : Nat
  month : Nat
  day : Nat
  hour : Nat
  minute : Nat
  second : Nat
  dst : Bool
  year : Nat
  sizes : List Nat

/-- The loop over the years. 32 bits hold fewer than 137 years. -/
def yearFrom : Nat → Nat → Nat → Nat × Nat
  | 0, year, now => (year, now)
  | fuel + 1, year, now =>
      let days := if isleap year then 366 else 365
      let tmp := days * secperdy
      if now < tmp then (year, now) else yearFrom fuel (year + 1) (now - tmp)

/-- The loop over the months, of which `left` are left -/
def monthFrom (year : Nat) : Nat → Nat → Nat → Nat × Nat
  | 0, month, now => (month, now)
  | left + 1, month, now =>
      let tmp := dtMsize month * secperdy
      let tmp := if month = 1 ∧ isleap year then tmp + secperdy else tmp
      if now < tmp then (month, now) else monthFrom year left (month + 1) (now - tmp)

def marchSunday (year jan1 : Nat) : Nat :=
  let mar1 := (jan1 + dtMsize 0 + dtMsize 1 + if isleap year then 1 else 0) % 7
  if mar1 = 0 then 8 else 15 - mar1

def novemberSunday (year jan1 : Nat) : Nat :=
  let nov1 := (List.range 10).foldl (fun nov1 i => nov1 + dtMsize i) jan1
  let nov1 := (if isleap year then nov1 + 1 else nov1) % 7
  if nov1 = 0 then 1 else 8 - nov1

/-- The automatic setting -/
def computeDst (year month day hour jan1 : Nat) : Bool :=
  if month = 11 ∨ month = 0 ∨ month = 1 then false
  else if 2 < month ∧ month < 10 then true
  else if month = 2 then
    let marss := marchSunday year jan1
    if marss < day then true else decide (day = marss ∧ 2 ≤ hour)
  else if month = 10 then
    let novfs := novemberSunday year jan1
    if novfs < day then false else decide (¬(day = novfs ∧ 1 ≤ hour))
  else false

/-- The extra hour, with the next day or the next month -/
def addHour (printed : Printed) : Printed :=
  let hour := printed.hour + 1
  if 23 < hour then
    let day := printed.day + 1
    let sizes := printed.sizes ++ [printed.month]
    if dtMsize printed.month < day then
      { printed with hour := 0, day := 1, month := printed.month + 1, sizes := sizes }
    else { printed with hour := 0, day := day, sizes := sizes }
  else { printed with hour := hour }

def ascdate (daylight : Daylight) (now : Nat) : Printed :=
  let (year, now) := yearFrom 137 1970 now
  let days := now / secperdy
  let (month, now) := monthFrom year 12 0 now
  let day := now / secperdy + 1
  let now := now % secperdy
  let hour := now / secperhr
  let now := now % secperhr
  let minute := now / secpermn
  let second := now % secpermn
  let leapyrs := (year - 1969) / 4
  let shift := 4 + (year - 1970) + leapyrs
  let jan1 := shift % 7
  let dayofweek := (shift + days) % 7
  let dst := match daylight with
    | .off => false
    | .on => true
    | .auto => computeDst year month day hour jan1
  let sizes := (List.range 12).take (month + 1) ++
    if daylight = .auto then [0, 1] ++ List.range 10 else []
  let printed : Printed := ⟨dayofweek, month, day, hour, minute, second, dst, year, sizes⟩
  bif dst then addHour printed else printed

/-- Daylight saving time: from 2:00 on the second Sunday of March on, and before the first Sunday
of November has seen 1:00 of standard time. -/
def InSummer (now : Nat) : Prop :=
  ∃ year first last, 1970 ≤ year ∧
    (8 ≤ first ∧ first < 15 ∧ Date.weekday ⟨year, 2, first, 2, 0, 0⟩ = 0) ∧
    (1 ≤ last ∧ last < 8 ∧ Date.weekday ⟨year, 10, last, 1, 0, 0⟩ = 0) ∧
    Date.seconds ⟨year, 2, first, 2, 0, 0⟩ ≤ now ∧ now < Date.seconds ⟨year, 10, last, 1, 0, 0⟩

def Applies (now : Nat) : Daylight → Prop
  | .off => False
  | .on => True
  | .auto => InSummer now

open Classical in
/-- The seconds to the date that is to be printed -/
noncomputable def localTime (daylight : Daylight) (now : Nat) : Nat :=
  if Applies now daylight then now + 3600 else now

structure Shows (printed : Printed) (date : Date) : Prop where
  weekday : printed.dayofweek = date.weekday
  month : printed.month = date.month
  day : printed.day = date.day
  year : printed.year = date.year
  hour : printed.hour = date.hour
  minute : printed.minute = date.minute
  second : printed.second = date.second

structure InTables (printed : Printed) : Prop where
  month : printed.month < 12
  weekday : printed.dayofweek < 7
  sizes : ∀ month ∈ printed.sizes, month < 12

/-- The fields are those of the date, and the indices are in the tables. -/
def PrintsDate (daylight : Daylight) (now : Nat) : Prop :=
  (∃ date : Date, date.Lies (localTime daylight now) ∧ Shows (ascdate daylight now) date) ∧
    InTables (ascdate daylight now)

/-- The extra hour leads to another day. -/
def CrossesMidnight (daylight : Daylight) (now : Nat) : Prop :=
  Applies now daylight ∧ 82800 ≤ now % 86400

/-- The seconds to the start of 2100 -/
def year2100 : Nat := 4102444800

end Definitions

section Loops

variable {year years month left now fuel : Nat}

theorem isleap_iff (late : 1970 ≤ year) (early : year < 2100) :
    isleap year = true ↔ IsLeap year := by
  rw [is_leap_iff late early]
  simp [isleap]

/-- The years that have passed, and the rest of the seconds -/
theorem year_from_found (before : 86400 * daysOfYears years + now < year2100)
    (enough : 130 ≤ years + fuel) (early : years ≤ 130) :
    ∃ found rest, yearFrom fuel (1970 + years) now = (1970 + found, rest) ∧ found < 130 ∧
      86400 * daysOfYears found + rest = 86400 * daysOfYears years + now ∧
      rest < 86400 * yearLength (1970 + found) := by
  have below : years < 130 := by
    rw [days_of_years early] at before
    unfold year2100 at before
    omega
  induction fuel generalizing years now with
  | zero => omega
  | succ fuel induction =>
      have leap : isleap (1970 + years) = true ↔ IsLeap (1970 + years) :=
        isleap_iff (by omega) (by omega)
      have length : (if isleap (1970 + years) then 366 else 365) * secperdy =
          86400 * yearLength (1970 + years) := by
        unfold yearLength secperdy
        simp only [leap]
        rw [Nat.mul_comm]
      unfold yearFrom
      simp only [length]
      by_cases ends : now < 86400 * yearLength (1970 + years)
      · rw [if_pos ends]
        exact ⟨years, now, rfl, below, rfl, ends⟩
      · rw [if_neg ends]
        have split : 86400 * daysOfYears (years + 1) + (now - 86400 * yearLength (1970 + years)) =
            86400 * daysOfYears years + now := by
          rw [daysOfYears]
          omega
        have later : 86400 * daysOfYears (years + 1) +
            (now - 86400 * yearLength (1970 + years)) < year2100 := by
          rw [split]
          exact before
        have next : years + 1 < 130 := by
          rw [days_of_years (show years + 1 ≤ 130 by omega)] at later
          unfold year2100 at later
          omega
        obtain ⟨found, rest, ran, bound, same, inYear⟩ :=
          @induction (years + 1) (now - 86400 * yearLength (1970 + years)) later (by omega)
            (Nat.le_of_lt next) next
        exact ⟨found, rest, ran, bound, same.trans split, inYear⟩

theorem month_size (late : 1970 ≤ year) (early : year < 2100) (bound : month < 12) :
    (if month = 1 ∧ isleap year then dtMsize month * secperdy + secperdy
      else dtMsize month * secperdy) = 86400 * monthLength year month := by
  have leap := isleap_iff late early
  unfold monthLength secperdy dtMsize
  interval_cases month <;> simp [leap]

/-- The months that have passed, and the rest of the seconds -/
theorem month_from_found (late : 1970 ≤ year) (early : year < 2100)
    (inYear : 86400 * daysOfMonths year month + now < 86400 * yearLength year)
    (all : month + left = 12) :
    ∃ found rest, monthFrom year left month now = (found, rest) ∧ found < 12 ∧
      86400 * daysOfMonths year found + rest = 86400 * daysOfMonths year month + now ∧
      rest < 86400 * monthLength year found := by
  induction left generalizing month now with
  | zero =>
      obtain rfl : month = 12 := by omega
      rw [days_of_twelve_months] at inYear
      omega
  | succ left induction =>
      unfold monthFrom
      simp only [month_size late early (show month < 12 by omega)]
      by_cases ends : now < 86400 * monthLength year month
      · rw [if_pos ends]
        exact ⟨month, now, rfl, by omega, rfl, ends⟩
      · rw [if_neg ends]
        have split : 86400 * daysOfMonths year (month + 1) +
            (now - 86400 * monthLength year month) = 86400 * daysOfMonths year month + now := by
          rw [daysOfMonths]
          omega
        have inside : 86400 * daysOfMonths year (month + 1) +
            (now - 86400 * monthLength year month) < 86400 * yearLength year := by
          rw [split]
          exact inYear
        obtain ⟨found, rest, ran, bound, same, inMonth⟩ :=
          @induction (month + 1) (now - 86400 * monthLength year month) inside (by omega)
        exact ⟨found, rest, ran, bound, same.trans split, inMonth⟩

end Loops

section Standard

variable {now : Nat}

def leapDay (year : Nat) : Nat := if isleap year then 1 else 0

def firstWeekday (years : Nat) : Nat := (4 + years + (years + 1) / 4) % 7

/-- What is printed of a date, in front of the extra hour -/
def printedOf (date : Date) (dst : Bool) (sizes : List Nat) : Printed :=
  ⟨date.weekday, date.month, date.day, date.hour, date.minute, date.second, dst, date.year, sizes⟩

def dstOf (daylight : Daylight) (date : Date) : Bool :=
  match daylight with
  | .off => false
  | .on => true
  | .auto => computeDst date.year date.month date.day date.hour (firstWeekday (date.year - 1970))

/-- The fields in front of the extra hour are those of the date that lies at the time itself. -/
theorem ascdate_standard (early : now < year2100) :
    ∃ date : Date, date.Lies now ∧ date.year < 2100 ∧ ∀ daylight, ∃ sizes,
      (∀ month ∈ sizes, month < 12) ∧
      ascdate daylight now = if dstOf daylight date then
        addHour (printedOf date (dstOf daylight date) sizes)
      else printedOf date (dstOf daylight date) sizes := by
  obtain ⟨years, rest, ranYears, bound, same, inYear⟩ :=
    @year_from_found 0 now 137 (by simpa [daysOfYears] using early) (by omega) (by omega)
  have start :
      86400 * daysOfMonths (1970 + years) 0 + rest < 86400 * yearLength (1970 + years) := by
    simpa [daysOfMonths] using inYear
  obtain ⟨month, left, ranMonths, monthBound, sameMonths, inMonth⟩ :=
    month_from_found (by omega) (by omega) start (show 0 + 12 = 12 from rfl)
  simp only [daysOfYears, daysOfMonths, Nat.mul_zero, Nat.zero_add] at same sameMonths
  let date : Date := ⟨1970 + years, month, left / 86400 + 1, left % 86400 / 3600,
    left % 86400 % 3600 / 60, left % 86400 % 3600 % 60⟩
  have valid : date.Valid := by
    refine ⟨by simp [date], monthBound, ⟨by simp [date], ?_⟩, ?_, ?_, ?_⟩
    · change left / 86400 + 1 ≤ monthLength (1970 + years) month
      omega
    · change left % 86400 / 3600 < 24
      omega
    · change left % 86400 % 3600 / 60 < 60
      omega
    · change left % 86400 % 3600 % 60 < 60
      omega
  have seconds : date.seconds = now := by
    simp only [Date.seconds, Date.dayNumber, date, Nat.add_sub_cancel_left, Nat.add_sub_cancel]
    omega
  have lies : date.Lies now := ⟨valid, seconds⟩
  have weekday : (4 + years + (years + 1) / 4 + rest / 86400) % 7 = date.weekday := by
    rw [Date.weekday, day_number_of_lies lies]
    rw [days_of_years (show years ≤ 130 by omega)] at same
    omega
  have leapyrs : 1970 + years - 1969 = years + 1 := by omega
  refine ⟨date, lies, show 1970 + years < 2100 by omega, fun daylight =>
    ⟨(List.range 12).take (month + 1) ++ if daylight = .auto then [0, 1] ++ List.range 10 else [],
      ?_, ?_⟩⟩
  · intro size member
    rcases List.mem_append.mp member with inMonths | inAuto
    · exact List.mem_range.mp (List.mem_of_mem_take inMonths)
    · split at inAuto
      · simp at inAuto
        omega
      · cases inAuto
  · unfold ascdate
    simp only [ranYears, ranMonths, secperdy, secperhr, secpermn, leapyrs, Nat.add_sub_cancel_left,
      weekday]
    cases daylight <;>
      simp [dstOf, printedOf, firstWeekday, date]

end Standard

section Summer

variable {year years now : Nat}

theorem days_before_march (late : 1970 ≤ year) (early : year < 2100) :
    daysOfMonths year 2 = 59 + leapDay year := by
  have leap := isleap_iff late early
  unfold leapDay
  simp only [daysOfMonths, monthLength, leap]
  split <;> rfl

theorem days_before_november (late : 1970 ≤ year) (early : year < 2100) :
    daysOfMonths year 10 = 304 + leapDay year := by
  have leap := isleap_iff late early
  unfold leapDay
  simp only [daysOfMonths, monthLength, leap]
  split <;> rfl

/-- The second Sunday of March -/
theorem march_sunday_iff (early : years < 130) (first : Nat) :
    (8 ≤ first ∧ first < 15 ∧ Date.weekday ⟨1970 + years, 2, first, 2, 0, 0⟩ = 0) ↔
      first = marchSunday (1970 + years) (firstWeekday years) := by
  have march := days_before_march (show 1970 ≤ 1970 + years by omega) (by omega)
  have days := days_of_years (show years ≤ 130 by omega)
  have sizes : firstWeekday years + dtMsize 0 + dtMsize 1 +
      (if isleap (1970 + years) then 1 else 0) =
        firstWeekday years + 59 + leapDay (1970 + years) := rfl
  simp only [Date.weekday, Date.dayNumber, Nat.add_sub_cancel_left, march, days, marchSunday, sizes]
  unfold firstWeekday
  split <;> omega

/-- The first Sunday of November -/
theorem november_sunday_iff (early : years < 130) (last : Nat) :
    (1 ≤ last ∧ last < 8 ∧ Date.weekday ⟨1970 + years, 10, last, 1, 0, 0⟩ = 0) ↔
      last = novemberSunday (1970 + years) (firstWeekday years) := by
  have november := days_before_november (show 1970 ≤ 1970 + years by omega) (by omega)
  have days := days_of_years (show years ≤ 130 by omega)
  have sizes : (if isleap (1970 + years) then
      (List.range 10).foldl (fun nov1 i => nov1 + dtMsize i) (firstWeekday years) + 1
      else (List.range 10).foldl (fun nov1 i => nov1 + dtMsize i) (firstWeekday years)) =
      firstWeekday years + 304 + leapDay (1970 + years) := by
    have sum : (List.range 10).foldl (fun nov1 i => nov1 + dtMsize i) (firstWeekday years) =
        firstWeekday years + 304 := rfl
    rw [sum, leapDay]
    split <;> rfl
  simp only [Date.weekday, Date.dayNumber, Nat.add_sub_cancel_left, november, days, novemberSunday,
    sizes]
  unfold firstWeekday
  split <;> omega

/-- Summer in the year of a date -/
theorem in_summer_iff {date : Date} (lies : date.Lies now) (early : date.year < 2100) :
    InSummer now ↔
      Date.seconds ⟨date.year, 2,
        marchSunday date.year (firstWeekday (date.year - 1970)), 2, 0, 0⟩ ≤ now ∧
      now < Date.seconds ⟨date.year, 10,
        novemberSunday date.year (firstWeekday (date.year - 1970)), 1, 0, 0⟩ := by
  obtain ⟨years, inYears⟩ : ∃ years, date.year = 1970 + years :=
    ⟨date.year - 1970, by have := lies.1.year; omega⟩
  have bound : years < 130 := by omega
  rw [inYears, Nat.add_sub_cancel_left]
  have march := (march_sunday_iff bound _).mpr rfl
  have november := (november_sunday_iff bound _).mpr rfl
  constructor
  · rintro ⟨year, first, last, late, marchDay, novemberDay, behind, before⟩
    have startValid : Date.Valid ⟨year, 2, first, 2, 0, 0⟩ := by
      have length := @month_length_positive year 2
      constructor <;> simp only <;> omega
    have stopValid : Date.Valid ⟨year, 10, last, 1, 0, 0⟩ := by
      have length := @month_length_positive year 10
      constructor <;> simp only <;> omega
    have same : year = 1970 + years :=
      (year_between lies startValid stopValid rfl behind before).symm.trans inYears
    subst same
    rw [← (march_sunday_iff bound first).mp marchDay,
      ← (november_sunday_iff bound last).mp novemberDay]
    exact ⟨behind, before⟩
  · rintro ⟨behind, before⟩
    exact ⟨1970 + years, _, _, by omega, march, november, behind, before⟩

/-- The automatic setting finds the summer. -/
theorem compute_dst_iff {date : Date} (lies : date.Lies now) (early : date.year < 2100) :
    computeDst date.year date.month date.day date.hour (firstWeekday (date.year - 1970)) = true ↔
      InSummer now := by
  rw [in_summer_iff lies early]
  obtain ⟨valid, here⟩ := lies
  have inMonth := day_of_month valid
  obtain ⟨late, inYear, ⟨positive, _⟩, hour, minute, second⟩ := valid
  have bound : date.year - 1970 < 130 := by omega
  have year : 1970 + (date.year - 1970) = date.year := by omega
  have march := (march_sunday_iff bound _).mpr rfl
  have november := (november_sunday_iff bound _).mpr rfl
  rw [year] at march november
  have spring : daysOfMonths date.year 3 = daysOfMonths date.year 2 + 31 := rfl
  have winter : daysOfMonths date.year 11 = daysOfMonths date.year 10 + 30 := rfl
  simp only [Date.seconds, Date.dayNumber] at here ⊢
  unfold computeDst
  generalize marchSunday date.year (firstWeekday (date.year - 1970)) = marss at *
  generalize novemberSunday date.year (firstWeekday (date.year - 1970)) = novfs at *
  have order : date.month < 2 ∨ date.month = 2 ∨ 2 < date.month ∧ date.month < 10 ∨
      date.month = 10 ∨ date.month = 11 := by omega
  rcases order with before | inMarch | between | inNovember | inDecember
  · have months := days_of_months_mono date.year (show date.month + 1 ≤ 2 from before)
    rw [if_pos (by omega)]
    refine iff_of_false Bool.false_ne_true ?_
    omega
  · have start : daysOfMonths date.year date.month = daysOfMonths date.year 2 := by rw [inMarch]
    have stop := days_of_months_mono date.year (show date.month + 1 ≤ 10 by omega)
    rw [if_neg (by omega), if_neg (by omega), if_pos inMarch]
    by_cases behind : marss < date.day
    · refine iff_of_true (if_pos behind) ?_
      omega
    · simp only [if_neg behind, decide_eq_true_eq]
      omega
  · have start := days_of_months_mono date.year (show 3 ≤ date.month from between.1)
    have stop := days_of_months_mono date.year (show date.month + 1 ≤ 10 from between.2)
    rw [if_neg (by omega), if_pos between]
    refine iff_of_true rfl ?_
    omega
  · have start := days_of_months_mono date.year (show 3 ≤ 10 by decide)
    rw [inNovember] at here
    rw [if_neg (by omega), if_neg (by omega), if_neg (by omega), if_pos inNovember]
    by_cases behind : novfs < date.day
    · simp only [if_pos behind, Bool.false_eq_true, false_iff]
      omega
    · simp only [if_neg behind, decide_eq_true_eq]
      omega
  · rw [inDecember] at here
    rw [if_pos (Or.inl inDecember)]
    refine iff_of_false Bool.false_ne_true ?_
    omega

end Summer

section Results

variable {now : Nat} {daylight : Daylight}

theorem dst_of_iff {date : Date} (lies : date.Lies now) (early : date.year < 2100) :
    dstOf daylight date = true ↔ Applies now daylight := by
  cases daylight with
  | off => exact iff_of_false Bool.false_ne_true id
  | on => exact iff_of_true rfl trivial
  | auto => exact compute_dst_iff lies early

theorem printed_shows (date : Date) (dst : Bool) (sizes : List Nat) :
    Shows (printedOf date dst sizes) date := ⟨rfl, rfl, rfl, rfl, rfl, rfl, rfl⟩

theorem printed_in_tables {date : Date} {sizes : List Nat} (valid : date.Valid) (dst : Bool)
    (inTable : ∀ month ∈ sizes, month < 12) : InTables (printedOf date dst sizes) :=
  ⟨valid.month, Nat.mod_lt _ (by decide), inTable⟩

/-- One hour later on the same day -/
theorem next_hour_lies {date : Date} (lies : date.Lies now) (more : date.hour < 23) :
    Date.Lies { date with hour := date.hour + 1 } (now + 3600) := by
  obtain ⟨⟨year, month, day, hour, minute, second⟩, same⟩ := lies
  refine ⟨⟨year, month, day, Nat.succ_lt_succ more, minute, second⟩, ?_⟩
  unfold Date.seconds Date.dayNumber at *
  simp only
  omega

theorem hour_of_lies {date : Date} (lies : date.Lies now) : date.hour = now % 86400 / 3600 := by
  obtain ⟨⟨_, _, _, hour, minute, second⟩, same⟩ := lies
  unfold Date.seconds at same
  omega

theorem add_hour_same_day {date : Date} {dst : Bool} {sizes : List Nat} (more : date.hour < 23) :
    addHour (printedOf date dst sizes) =
      printedOf { date with hour := date.hour + 1 } dst sizes := by
  have sameDay : ¬23 < date.hour + 1 := by omega
  exact if_neg sameDay

theorem add_hour_weekday (printed : Printed) : (addHour printed).dayofweek = printed.dayofweek := by
  unfold addHour
  dsimp only
  split_ifs <;> rfl

/-- The day of the week is computed in front of the extra hour, and is wrong behind midnight. -/
theorem ascdate_prints_iff (daylight : Daylight) (early : now < year2100) :
    PrintsDate daylight now ↔ ¬CrossesMidnight daylight now := by
  obtain ⟨date, lies, inRange, ran⟩ := ascdate_standard early
  obtain ⟨sizes, inTable, ran⟩ := ran daylight
  have applies : dstOf daylight date = true ↔ Applies now daylight := dst_of_iff lies inRange
  have hour := hour_of_lies lies
  unfold PrintsDate CrossesMidnight localTime
  rw [ran]
  by_cases summer : Applies now daylight
  · simp only [summer, applies.mpr summer, if_true, true_and]
    by_cases midnight : 82800 ≤ now % 86400
    · refine iff_of_false ?_ (not_not.mpr midnight)
      rintro ⟨⟨later, liesLater, shows⟩, _⟩
      have weekday : date.weekday = later.weekday := (add_hour_weekday _).symm.trans shows.weekday
      rw [Date.weekday, Date.weekday, day_number_of_lies lies, day_number_of_lies liesLater]
        at weekday
      omega
    · have more : date.hour < 23 := by omega
      refine iff_of_true ?_ midnight
      have liesLater := next_hour_lies lies more
      rw [add_hour_same_day more]
      exact ⟨⟨_, liesLater, printed_shows _ _ _⟩, printed_in_tables liesLater.1 _ inTable⟩
  · have off : ¬dstOf daylight date = true := mt applies.mp summer
    simp only [summer, off, if_false, false_and, not_false_eq_true, iff_true]
    exact ⟨⟨date, lies, printed_shows _ _ _⟩, printed_in_tables lies.1 _ inTable⟩

/-- 1 July 2020, 12:00 -/
theorem ascdate_prints_summer :
    PrintsDate .on 1593604800 ↔ ¬CrossesMidnight .on 1593604800 :=
  ascdate_prints_iff .on (by decide)

/-- 1 July 2020, 23:30: it prints the first half hour of 2 July with the weekday of 1 July. -/
theorem ascdate_prints_yesterday : ¬∀ (daylight : Daylight) (now : Nat), now < year2100 →
    PrintsDate daylight now := by
  intro always
  obtain ⟨⟨date, lies, shows⟩, _⟩ := always .auto 1593646200 (by decide)
  have printed :
      (ascdate .auto 1593646200).dayofweek = 3 ∧ (ascdate .auto 1593646200).hour = 0 := by
    decide
  have weekday := shows.weekday
  have hour := shows.hour
  rw [printed.1, Date.weekday, day_number_of_lies lies] at weekday
  rw [printed.2, hour_of_lies lies] at hour
  unfold localTime at weekday hour
  split at weekday
  · exact absurd weekday (by decide)
  · rename_i notSummer
    rw [if_neg notSummer] at hour
    exact absurd hour (by decide)

end Results

end Xinu.Clock.Ascdate
