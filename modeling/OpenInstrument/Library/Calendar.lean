import Mathlib.Data.List.Lex
import Mathlib.Logic.Function.Iterate

/-! # The Gregorian calendar

Dates are counted one by one: each has a next one.  So a number that is given to the dates counts days exactly when
it goes up by one from each date to the next.
-/

namespace Calendar

/-- Every fourth year, but of the hundredth years only every fourth. -/
def IsLeapYear (year : Nat) : Prop := year % 4 = 0 ∧ (year % 100 = 0 → year % 400 = 0)

instance : DecidablePred IsLeapYear := fun year =>
  inferInstanceAs (Decidable (year % 4 = 0 ∧ (year % 100 = 0 → year % 400 = 0)))

/-- The length of a month; January is month 0. -/
def daysInMonth (year month : Nat) : Nat :=
  if month = 1 then if IsLeapYear year then 29 else 28
  else if month = 3 ∨ month = 5 ∨ month = 8 ∨ month = 10 then 30
  else 31

theorem daysInMonth_pos (year month : Nat) : 1 ≤ daysInMonth year month := by
  rw [daysInMonth]
  split_ifs <;> decide

/-- A day that there is. -/
@[ext] structure Date where
  year : Nat
  month : Nat
  day : Nat
  month_lt : month < 12
  day_pos : 1 ≤ day
  day_le : day ≤ daysInMonth year month
  deriving DecidableEq

namespace Date

def first (year month : Nat) (month_lt : month < 12) : Date :=
  { year, month, day := 1, month_lt, day_pos := Nat.le_refl 1, day_le := daysInMonth_pos year month }

def newYear (year : Nat) : Date := first year 0 (by decide)

def next (date : Date) : Date :=
  if within : date.day < daysInMonth date.year date.month then
    { date with day := date.day + 1, day_pos := Nat.succ_pos date.day, day_le := within }
  else if more : date.month + 1 < 12 then first date.year (date.month + 1) more
  else newYear (date.year + 1)

/-- What the day after a date can be. -/
theorem next_cases (date : Date) :
    (date.day < daysInMonth date.year date.month ∧ date.next.year = date.year ∧ date.next.month = date.month ∧
      date.next.day = date.day + 1) ∨
    (date.day = daysInMonth date.year date.month ∧ date.month + 1 < 12 ∧ date.next.year = date.year ∧
      date.next.month = date.month + 1 ∧ date.next.day = 1) ∨
    (date.day = daysInMonth date.year date.month ∧ date.month = 11 ∧ date.next.year = date.year + 1 ∧
      date.next.month = 0 ∧ date.next.day = 1) := by
  have day_le := date.day_le
  have month_lt := date.month_lt
  rw [next]
  split_ifs with within more
  · exact .inl ⟨within, rfl, rfl, rfl⟩
  · exact .inr (.inl ⟨by omega, more, rfl, rfl, rfl⟩)
  · exact .inr (.inr ⟨by omega, by omega, rfl, rfl, rfl⟩)

/-! ## Every date is reached -/

/-- From the first day of a month on, all its days. -/
theorem reached_in_month (date : Date) :
    ∃ days, date = next^[days] (first date.year date.month date.month_lt) := by
  obtain ⟨year, month, day, month_lt, day_pos, day_le⟩ := date
  induction day with
  | zero => exact absurd day_pos (Nat.not_succ_le_zero 0)
  | succ day inductionHypothesis =>
    cases day with
    | zero => exact ⟨0, rfl⟩
    | succ day =>
      obtain ⟨days, reached⟩ := inductionHypothesis (Nat.succ_pos day) (Nat.le_of_succ_le day_le)
      refine ⟨days + 1, ?_⟩
      rw [Function.iterate_succ_apply', ← reached, next, dif_pos (Nat.lt_of_succ_le day_le)]

def last (year month : Nat) (month_lt : month < 12) : Date :=
  { year, month, day := daysInMonth year month, month_lt, day_pos := daysInMonth_pos year month
    day_le := Nat.le_refl _ }

theorem next_last_of_lt {year month : Nat} (more : month + 1 < 12) :
    next (last year month (Nat.lt_of_succ_lt more)) = first year (month + 1) more :=
  (dif_neg (Nat.lt_irrefl _)).trans (dif_pos more)

theorem next_last_december (year : Nat) : next (last year 11 (by decide)) = newYear (year + 1) :=
  (dif_neg (Nat.lt_irrefl _)).trans (dif_neg (Nat.lt_irrefl 12))

/-- From the first day of a year on, the first days of its months. -/
theorem reached_in_year (year month : Nat) (month_lt : month < 12) :
    ∃ days, first year month month_lt = next^[days] (newYear year) := by
  induction month with
  | zero => exact ⟨0, rfl⟩
  | succ month inductionHypothesis =>
    obtain ⟨days, reached⟩ := inductionHypothesis (Nat.lt_of_succ_lt month_lt)
    obtain ⟨more, reachedLast⟩ := reached_in_month (last year month (Nat.lt_of_succ_lt month_lt))
    refine ⟨1 + (more + days), ?_⟩
    rw [Function.iterate_add_apply, Function.iterate_add_apply, ← reached]
    exact (next_last_of_lt month_lt).symm.trans (congrArg next reachedLast)

theorem reached_new_year {start year : Nat} (after : start ≤ year) :
    ∃ days, newYear year = next^[days] (newYear start) := by
  induction year, after using Nat.le_induction with
  | base => exact ⟨0, rfl⟩
  | succ year _ inductionHypothesis =>
    obtain ⟨days, reached⟩ := inductionHypothesis
    obtain ⟨months, reachedDecember⟩ := reached_in_year year 11 (by decide)
    obtain ⟨more, reachedLast⟩ := reached_in_month (last year 11 (by decide))
    refine ⟨1 + (more + (months + days)), ?_⟩
    rw [Function.iterate_add_apply, Function.iterate_add_apply, Function.iterate_add_apply, ← reached,
      ← reachedDecember]
    exact (next_last_december year).symm.trans (congrArg next reachedLast)

/-- From the first day of a year on, all the dates of that year and of the later ones. -/
theorem reached {start : Nat} {date : Date} (after : start ≤ date.year) :
    ∃ days, date = next^[days] (newYear start) := by
  obtain ⟨years, reachedYear⟩ := reached_new_year after
  obtain ⟨months, reachedMonth⟩ := reached_in_year date.year date.month date.month_lt
  obtain ⟨days, reachedDay⟩ := reached_in_month date
  refine ⟨days + (months + years), ?_⟩
  rw [Function.iterate_add_apply, Function.iterate_add_apply, ← reachedYear, ← reachedMonth]
  exact reachedDay

/-! ## Order -/

/-- The order of the calendar: by year, then by month, then by day. -/
def Before (one other : Date) : Prop := [one.year, one.month, one.day] < [other.year, other.month, other.day]

instance : DecidableRel Before := fun one other =>
  inferInstanceAs (Decidable ([one.year, one.month, one.day] < [other.year, other.month, other.day]))

theorem before_iff {one other : Date} :
    one.Before other ↔ one.year < other.year ∨ one.year = other.year ∧
      (one.month < other.month ∨ one.month = other.month ∧ one.day < other.day) := by
  simp [Before, List.cons_lt_cons_iff]

theorem Before.trans {one other third : Date} (first : one.Before other) (second : other.Before third) :
    one.Before third := List.lt_trans first second

theorem not_before_self (date : Date) : ¬date.Before date := List.lt_irrefl _

theorem before_next (date : Date) : date.Before date.next := by
  rw [before_iff]
  obtain within | newMonth | nextYear := date.next_cases
  · exact .inr ⟨within.2.1.symm, .inr ⟨within.2.2.1.symm, by omega⟩⟩
  · exact .inr ⟨newMonth.2.2.1.symm, .inl (by omega)⟩
  · exact .inl (by omega)

theorem not_before_of_iterate (date : Date) (days : Nat) : ¬(next^[days] date).Before date := by
  have later : days = 0 ∨ date.Before (next^[days] date) := by
    induction days with
    | zero => exact .inl rfl
    | succ days inductionHypothesis =>
      rw [Function.iterate_succ_apply']
      cases inductionHypothesis with
      | inl none_ => exact .inr (by rw [none_]; exact before_next date)
      | inr before => exact .inr (before.trans (before_next _))
  cases later with
  | inl none_ => rw [none_]; exact not_before_self date
  | inr before => exact fun back => not_before_self date (before.trans back)

/-! ## Counting days -/

/-- A number for each date from a year on, one more for each next date. -/
def Counts (start : Nat) (number : Date → Int) : Prop :=
  ∀ date : Date, start ≤ date.year → number date.next = number date + 1

theorem year_le_iterate (date : Date) (days : Nat) : date.year ≤ (next^[days] date).year := by
  induction days with
  | zero => exact Nat.le_refl _
  | succ days inductionHypothesis =>
    rw [Function.iterate_succ_apply']
    have cases_ := (next^[days] date).next_cases
    omega

theorem Counts.iterate {start : Nat} {number : Date → Int} (counts : Counts start number) {date : Date}
    (after : start ≤ date.year) (days : Nat) : number (next^[days] date) = number date + days := by
  induction days with
  | zero => exact (Int.add_zero _).symm
  | succ days inductionHypothesis =>
    rw [Function.iterate_succ_apply', counts _ (after.trans (year_le_iterate date days)), inductionHypothesis]
    omega

/-- The number of a date, above that of the first one, is how many days one has to go on to reach it. -/
theorem Counts.reached {start : Nat} {number : Date → Int} (counts : Counts start number) {date : Date}
    (after : start ≤ date.year) :
    ∃ days : Nat, date = next^[days] (newYear start) ∧
      number date = number (newYear start) + days := by
  obtain ⟨days, reached⟩ := Date.reached after
  refine ⟨days, reached, ?_⟩
  rw [reached, counts.iterate (Nat.le_refl start)]

theorem Counts.lt_of_before {start : Nat} {number : Date → Int} (counts : Counts start number) {one other : Date}
    (after : start ≤ one.year) (before : one.Before other) : number one < number other := by
  have later : start ≤ other.year := by
    rw [before_iff] at before
    omega
  obtain ⟨days, reachedOne, numberOne⟩ := counts.reached after
  obtain ⟨more, reachedOther, numberOther⟩ := counts.reached later
  rw [numberOne, numberOther]
  by_contra notLess
  -- Otherwise the earlier date is reached from the later one.
  obtain ⟨between, rfl⟩ := Nat.exists_eq_add_of_le (show more ≤ days by omega)
  rw [Nat.add_comm, Function.iterate_add_apply, ← reachedOther] at reachedOne
  exact not_before_of_iterate other between (reachedOne ▸ before)

end Date

/-! ## The time of a day -/

/-- A second that there is. -/
structure Moment where
  date : Date
  hour : Fin 24
  minute : Fin 60
  second : Fin 60

namespace Moment

def secondOfDay (moment : Moment) : Nat := 3600 * moment.hour + 60 * moment.minute + moment.second

/-- The order of the calendar and the clock. -/
def Before (one other : Moment) : Prop :=
  one.date.Before other.date ∨
    one.date = other.date ∧ [one.hour.val, one.minute, one.second] < [other.hour.val, other.minute, other.second]

theorem secondOfDay_lt (moment : Moment) : moment.secondOfDay < 86400 := by
  have hour := moment.hour.isLt
  have minute := moment.minute.isLt
  have second := moment.second.isLt
  rw [secondOfDay]
  omega

/-- The seconds from the first day of a year on, for dates that are counted from it, go up with time. -/
theorem Before.seconds_lt {start : Nat} {number : Date → Int} (counts : Date.Counts start number) {one other : Moment}
    (after : start ≤ one.date.year) (before : one.Before other) :
    86400 * number one.date + one.secondOfDay < 86400 * number other.date + other.secondOfDay := by
  have one_lt := one.secondOfDay_lt
  cases before with
  | inl earlier =>
    have days := counts.lt_of_before after earlier
    omega
  | inr sameDay =>
    obtain ⟨same, earlier⟩ := sameDay
    have minute := one.minute.isLt
    have second := one.second.isLt
    simp only [List.cons_lt_cons_iff, List.not_lt_nil, and_false, or_false] at earlier
    rw [same, secondOfDay, secondOfDay]
    omega

end Moment

end Calendar
