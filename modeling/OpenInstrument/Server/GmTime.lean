import OpenInstrument.Library.Calendar

/-! # Seconds since 1970

`mkgmtime` turns the fields of a date and of a time of day into seconds, with a formula for the leap days that are
over.  Every field is an `int`, and the formula is worked out in 64 bits, which are enough for it.
-/

namespace OpenInstrument.Server

open Calendar (Date Moment IsLeapYear daysInMonth)

/-- The fields of a `struct tm` that are read. -/
structure Tm where
  tmYear : Int32
  tmMon : Int32
  tmMday : Int32
  tmHour : Int32
  tmMin : Int32
  tmSec : Int32

/-- The days of a common year that are over when a month begins. -/
def monthDay : List Int := [0, 31, 59, 90, 120, 151, 181, 212, 243, 273, 304, 334]

/-- The year and the month, from 0 to 11, of a number of months that need not be of one year. -/
def yearAndMonth (tm : Tm) : Int × Int :=
  let month := tm.tmMon.toInt.tmod 12
  let year := tm.tmYear.toInt + tm.tmMon.toInt.tdiv 12
  if month < 0 then (year - 1, month + 12) else (year, month)

/-- The leap days from 1970 on, in the formula of `mkgmtime`. -/
def leapDays (yearForLeap : Int) : Int :=
  (yearForLeap - 69).tdiv 4 - (yearForLeap - 1).tdiv 100 + (yearForLeap + 299).tdiv 400

/-- The days from 1970 on.  The leap day of a year is one of them from March on. -/
def gmDays (year month mday : Int) : Int :=
  let yearForLeap := if month > 1 then year + 1 else year
  monthDay.getD month.toNat 0 + mday - 1 + 365 * (year - 70) + leapDays yearForLeap

def mkgmtime (tm : Tm) : Int :=
  let date := yearAndMonth tm
  tm.tmSec.toInt + 60 * (tm.tmMin.toInt + 60 * (tm.tmHour.toInt + 24 * gmDays date.1 date.2 tm.tmMday.toInt))

/-- The fields are those of a date and of a time of day. -/
structure Tm.Is (tm : Tm) (moment : Moment) : Prop where
  year : tm.tmYear.toInt = moment.date.year - 1900
  month : tm.tmMon.toInt = moment.date.month
  day : tm.tmMday.toInt = moment.date.day
  hour : tm.tmHour.toInt = moment.hour.val
  minute : tm.tmMin.toInt = moment.minute.val
  second : tm.tmSec.toInt = moment.second.val

/-! ## Ranges -/

/-- The table is read inside, and the year stays small, whatever the fields are. -/
theorem yearAndMonth_range (tm : Tm) :
    (-4294967297 ≤ (yearAndMonth tm).1 ∧ (yearAndMonth tm).1 ≤ 4294967296) ∧
      0 ≤ (yearAndMonth tm).2 ∧ (yearAndMonth tm).2 < 12 := by
  have year := And.intro tm.tmYear.le_toInt tm.tmYear.toInt_lt
  have months := And.intro tm.tmMon.le_toInt tm.tmMon.toInt_lt
  have years := Int.natAbs_tdiv_le_natAbs tm.tmMon.toInt 12
  have below := Int.tmod_lt_of_pos tm.tmMon.toInt (show (0 : Int) < 12 by decide)
  have above := Int.lt_tmod_of_pos tm.tmMon.toInt (show (0 : Int) < 12 by decide)
  rw [yearAndMonth]
  split_ifs with negative <;> simp only <;> omega

theorem monthDay_range {month : Nat} (month_lt : month < 12) :
    0 ≤ monthDay.getD month 0 ∧ monthDay.getD month 0 ≤ 334 := by
  revert month
  decide

theorem leapDays_range {yearForLeap : Int} (small : -4294967297 ≤ yearForLeap ∧ yearForLeap ≤ 4294967297) :
    -17179869184 ≤ leapDays yearForLeap ∧ leapDays yearForLeap ≤ 17179869184 := by
  have fourth := Int.natAbs_tdiv_le_natAbs (yearForLeap - 69) 4
  have hundredth := Int.natAbs_tdiv_le_natAbs (yearForLeap - 1) 100
  have fourHundredth := Int.natAbs_tdiv_le_natAbs (yearForLeap + 299) 400
  rw [leapDays]
  omega

theorem gmDays_range {year month mday : Int} (yearSmall : -4294967297 ≤ year ∧ year ≤ 4294967296)
    (inYear : 0 ≤ month ∧ month < 12) (mdaySmall : -2147483648 ≤ mday ∧ mday < 2147483648) :
    -2199023255552 ≤ gmDays year month mday ∧ gmDays year month mday ≤ 2199023255552 := by
  have table := monthDay_range (show month.toNat < 12 by omega)
  rw [gmDays]
  split_ifs
  · have leap := leapDays_range (show -4294967297 ≤ year + 1 ∧ year + 1 ≤ 4294967297 by omega)
    omega
  · have leap := leapDays_range (show -4294967297 ≤ year ∧ year ≤ 4294967297 by omega)
    omega

/-- No fields make the formula overflow in 64 bits; what it adds up on the way is smaller still. -/
theorem mkgmtime_fits (tm : Tm) : -9223372036854775808 ≤ mkgmtime tm ∧ mkgmtime tm < 9223372036854775808 := by
  obtain ⟨year, month⟩ := yearAndMonth_range tm
  have days := gmDays_range year month ⟨tm.tmMday.le_toInt, tm.tmMday.toInt_lt⟩
  have hour := And.intro tm.tmHour.le_toInt tm.tmHour.toInt_lt
  have minute := And.intro tm.tmMin.le_toInt tm.tmMin.toInt_lt
  have second := And.intro tm.tmSec.le_toInt tm.tmSec.toInt_lt
  rw [mkgmtime]
  omega

/-! ## Days -/

/-- The formula has one more leap day behind each leap year. -/
theorem leapDays_succ {year : Nat} (after : 1970 ≤ year) :
    leapDays ((year : Int) - 1900 + 1) = leapDays ((year : Int) - 1900) + if IsLeapYear year then 1 else 0 := by
  -- All that is divided is positive, so that it does not matter how a division rounds.
  have divisions {yearForLeap : Int} (positive : 69 ≤ yearForLeap) :
      leapDays yearForLeap = (yearForLeap - 69) / 4 - (yearForLeap - 1) / 100 + (yearForLeap + 299) / 400 := by
    rw [leapDays, Int.tdiv_eq_ediv_of_nonneg (by omega), Int.tdiv_eq_ediv_of_nonneg (by omega),
      Int.tdiv_eq_ediv_of_nonneg (by omega)]
  rw [divisions (by omega), divisions (by omega)]
  simp only [IsLeapYear]
  split_ifs <;> omega

/-- A month begins behind the one before it, but for the leap day. -/
theorem monthDay_succ (year : Nat) {month : Nat} (more : month + 1 < 12) :
    monthDay.getD month 0 + daysInMonth year month =
      monthDay.getD (month + 1) 0 + if month = 1 ∧ IsLeapYear year then 1 else 0 := by
  have table : ∀ month < 11, month ≠ 1 →
      monthDay.getD month 0 + ((if month = 3 ∨ month = 5 ∨ month = 8 ∨ month = 10 then 30 else 31 : Nat) : Int) =
        monthDay.getD (month + 1) 0 := by
    decide
  by_cases february : month = 1
  · subst february
    rw [daysInMonth, if_pos rfl]
    simp only [true_and]
    split_ifs <;> decide
  · rw [daysInMonth, if_neg february, if_neg (show ¬(month = 1 ∧ IsLeapYear year) from fun both => february both.1),
      Int.add_zero]
    exact table month (by omega) february

def dayNumber (date : Date) : Int := gmDays (date.year - 1900) date.month date.day

theorem dayNumber_eq (date : Date) :
    dayNumber date = monthDay.getD date.month 0 + date.day - 1 + 365 * ((date.year : Int) - 1970) +
      leapDays (if date.month > 1 then (date.year : Int) - 1900 + 1 else (date.year : Int) - 1900) := by
  have afterFebruary : (date.month : Int) > 1 ↔ date.month > 1 := by omega
  rw [dayNumber, gmDays, Int.toNat_natCast]
  simp only [afterFebruary]
  omega

theorem counts_dayNumber : Date.Counts 1970 dayNumber := by
  intro date after
  rw [dayNumber_eq, dayNumber_eq]
  obtain within | newMonth | newYear := date.next_cases
  · obtain ⟨_, year, month, day⟩ := within
    rw [year, month, day]
    omega
  · obtain ⟨lastDay, more, year, month, day⟩ := newMonth
    have lengths := monthDay_succ date.year more
    have leap := leapDays_succ after
    rw [year, month, day, lastDay]
    obtain january | february | later : date.month = 0 ∨ date.month = 1 ∨ 1 < date.month := by omega
    · simp only [january, Nat.zero_add, Nat.zero_ne_one, false_and, if_false, gt_iff_lt, Nat.not_lt_zero,
        Nat.lt_irrefl] at lengths ⊢
      omega
    · -- The leap day is in the month that ends, and the formula begins to count it.
      simp only [february, Nat.reduceAdd, true_and, gt_iff_lt, Nat.lt_irrefl, if_false, Nat.one_lt_two,
        if_true] at lengths ⊢
      omega
    · rw [if_neg (show ¬(date.month = 1 ∧ IsLeapYear date.year) by omega)] at lengths
      rw [if_pos later, if_pos (show date.month + 1 > 1 by omega)]
      omega
  · obtain ⟨lastDay, december, year, month, day⟩ := newYear
    have length : daysInMonth date.year 11 = 31 := rfl
    rw [year, month, day, lastDay, december, length, if_neg (by decide), if_pos (by decide)]
    have table : monthDay.getD 0 0 = 0 ∧ monthDay.getD 11 0 = 334 := ⟨rfl, rfl⟩
    have nextYear : ((date.year + 1 : Nat) : Int) - 1900 = date.year - 1900 + 1 := by omega
    rw [table.1, table.2, nextYear]
    omega

theorem yearAndMonth_of_is {tm : Tm} {moment : Moment} (is_ : tm.Is moment) :
    yearAndMonth tm = ((moment.date.year : Int) - 1900, (moment.date.month : Int)) := by
  have month_lt := moment.date.month_lt
  rw [yearAndMonth, is_.year, is_.month, Int.tmod_eq_emod_of_nonneg (Int.natCast_nonneg _),
    Int.tdiv_eq_ediv_of_nonneg (Int.natCast_nonneg _), if_neg (by omega)]
  exact Prod.ext (by omega) (by omega)

theorem mkgmtime_eq {tm : Tm} {moment : Moment} (is_ : tm.Is moment) :
    mkgmtime tm = 86400 * dayNumber moment.date + moment.secondOfDay := by
  rw [mkgmtime, yearAndMonth_of_is is_, is_.day, is_.hour, is_.minute, is_.second, dayNumber, Moment.secondOfDay]
  simp only
  omega

example : mkgmtime { tmYear := 111, tmMon := 0, tmMday := 6, tmHour := 23, tmMin := 34, tmSec := 2 } = 1294356842 := by
  decide

/-- The first day of 1970. -/
def epoch : Date := .newYear 1970

/-- `mkgmtime` counts the days since 1970 one by one, and so it goes up with time. -/
theorem mkgmtime_counts :
    (∀ (tm : Tm) (moment : Moment), tm.Is moment → 1970 ≤ moment.date.year →
      ∃ days : Nat, moment.date = Date.next^[days] epoch ∧ mkgmtime tm = 86400 * days + moment.secondOfDay) ∧
    ∀ (one other : Tm) (first second : Moment), one.Is first → other.Is second → 1970 ≤ first.date.year →
      first.Before second → mkgmtime one < mkgmtime other := by
  constructor
  · intro tm moment is_ after
    obtain ⟨days, reached, number⟩ := counts_dayNumber.reached after
    refine ⟨days, reached, ?_⟩
    have zero : dayNumber (.newYear 1970) = 0 := by decide
    rw [mkgmtime_eq is_, number, zero, Int.zero_add]
  · intro one other first second isFirst isSecond after before
    rw [mkgmtime_eq isFirst, mkgmtime_eq isSecond]
    exact before.seconds_lt counts_dayNumber after

/-- The last second of the leap day of 2000, and the first one behind it. -/
theorem mkgmtime_counts_leap_day :
    let leapDay : Date := ⟨2000, 1, 29, by decide, by decide, by decide⟩
    (∃ days : Nat, leapDay = Date.next^[days] epoch ∧ mkgmtime ⟨100, 1, 29, 23, 59, 59⟩ = 86400 * days + 86399) ∧
      mkgmtime ⟨100, 1, 29, 23, 59, 59⟩ < mkgmtime ⟨100, 2, 1, 0, 0, 0⟩ := by
  intro leapDay
  have isLeapDay : Tm.Is ⟨100, 1, 29, 23, 59, 59⟩ ⟨leapDay, 23, 59, 59⟩ := by
    constructor <;> decide
  have isMarch : Tm.Is ⟨100, 2, 1, 0, 0, 0⟩ ⟨.first 2000 2 (by decide), 0, 0, 0⟩ := by
    constructor <;> decide
  exact ⟨mkgmtime_counts.1 _ _ isLeapDay (by decide),
    mkgmtime_counts.2 _ _ _ _ isLeapDay isMarch (by decide) (.inl (by decide))⟩

end OpenInstrument.Server
