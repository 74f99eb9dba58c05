import Mathlib.Algebra.BigOperators.Intervals
import Mathlib.Tactic.IntervalCases
import Mathlib.Tactic.Linarith

/-! The time of `apps/lib/stdlibc/time.c` and `sys_time.c`.

`mktime` has the right closed form for the leap years, as long as the sum in it fits an `int`.
`getyday` counts from 1 where `mktime` needs it from 0, and has a leap year's extra day in January
already, so that the clock is a day or two ahead. In `gettimeofday` the product of `tv_usec` is
taken in 32 bits before it is divided. -/
namespace MeinOS.Calendar

/-- The value of an `int`. -/
def int (x : Int) : Int := x.bmod (2 ^ 32)

/-- What is used of `struct tm`. -/
structure Tm where
  sec : Int
  min : Int
  hour : Int
  mday : Int
  mon : Int
  year : Int
  wday : Int
  yday : Int

/-- The additions before the divisions are those of an `int`; the sum is read modulo 2^32. -/
def mktime (tm : Tm) : Int :=
  (tm.sec + tm.min * 60 + tm.hour * 3600 + tm.yday * 86400 + (tm.year - 70) * 31536000 +
    (int (tm.year - 69)).tdiv 4 * 86400 - (int (tm.year - 1)).tdiv 100 * 86400 +
    (int (tm.year + 299)).tdiv 400 * 86400) % 2 ^ 32

def Leap (year : Nat) : Prop := (year % 4 = 0 ∧ year % 100 ≠ 0) ∨ year % 400 = 0

instance (year : Nat) : Decidable (Leap year) := inferInstanceAs (Decidable (_ ∨ _))

def yearLength (year : Nat) : Nat := if Leap year then 366 else 365

/-- The days of the years from 1970 on, for so many years. -/
def daysOfYears (years : Nat) : Nat := ∑ k ∈ Finset.range years, yearLength (1970 + k)

/-- The three divisions count the leap years. -/
theorem days_of_years_eq (years : Nat) : daysOfYears years + (years + 69) / 100 =
    365 * years + (years + 1) / 4 + (years + 369) / 400 := by
  induction years with
  | zero => rfl
  | succ years ih =>
    rw [daysOfYears, Finset.sum_range_succ, ← daysOfYears, yearLength]
    by_cases leap : Leap (1970 + years)
    · rw [if_pos leap]
      unfold Leap at leap
      omega
    · rw [if_neg leap]
      unfold Leap at leap
      omega

theorem int_eq {x : Int} (low : -(2 ^ 31) ≤ x) (high : x < 2 ^ 31) : int x = x := by
  unfold int
  rw [Int.bmod_eq_of_le] <;> omega

theorem int_wraps {x : Int} (low : 2 ^ 31 ≤ x) (high : x < 2 ^ 32) : int x = x - 2 ^ 32 := by
  unfold int
  rw [Int.bmod_def]
  omega

/-- What the last addition in `mktime` does to its quotient when it does not fit. -/
def overflowed (year : Int) : Int := (int (year + 299)).tdiv 400 - (year + 299) / 400

theorem overflowed_eq (year : Int) (since : 70 ≤ year) (fits : year < 2 ^ 31) :
    (year + 299 < 2 ^ 31 ∧ overflowed year = 0) ∨
      (2 ^ 31 ≤ year + 299 ∧ (overflowed year = -10737417 ∨ overflowed year = -10737418)) := by
  by_cases small : year + 299 < 2 ^ 31
  · left
    rw [overflowed, int_eq (by omega) small, Int.tdiv_eq_ediv_of_nonneg (by omega)]
    omega
  · right
    have negative : year + 299 - 2 ^ 32 = -(2 ^ 32 - (year + 299)) := by omega
    rw [overflowed, int_wraps (by omega) (by omega), negative, Int.neg_tdiv,
      Int.tdiv_eq_ediv_of_nonneg (by omega)]
    omega

/-- `mktime` of any year that an `int` holds. -/
theorem mktime_eq (tm : Tm) (since : 70 ≤ tm.year) (fits : tm.year < 2 ^ 31) :
    mktime tm = (86400 * (daysOfYears (tm.year - 70).toNat + tm.yday) +
      (tm.hour * 3600 + tm.min * 60 + tm.sec) + 86400 * overflowed tm.year) % 2 ^ 32 := by
  obtain ⟨years, year⟩ : ∃ years : Nat, tm.year = years + 70 := ⟨(tm.year - 70).toNat, by omega⟩
  have days : (daysOfYears years + ((years + 69) / 100 : Nat) : Int) =
      365 * years + ((years + 1) / 4 : Nat) + ((years + 369) / 400 : Nat) := by
    exact_mod_cast days_of_years_eq years
  have fourth : (int (tm.year - 69)).tdiv 4 = ((years + 1) / 4 : Nat) := by
    rw [int_eq (by omega) (by omega), Int.tdiv_eq_ediv_of_nonneg (by omega)]
    omega
  have hundredth : (int (tm.year - 1)).tdiv 100 = ((years + 69) / 100 : Nat) := by
    rw [int_eq (by omega) (by omega), Int.tdiv_eq_ediv_of_nonneg (by omega)]
    omega
  have last : (tm.year + 299) / 400 = ((years + 369) / 400 : Nat) := by omega
  have count : (tm.year - 70).toNat = years := by omega
  rw [mktime, fourth, hundredth, overflowed, last, count]
  congr 1
  linarith

/-- `mktime` is the number of seconds exactly as long as `tm_year+299` fits an `int`. -/
theorem mktime_exact_iff (tm : Tm) (since : 70 ≤ tm.year) (fits : tm.year < 2 ^ 31) :
    mktime tm = (86400 * (daysOfYears (tm.year - 70).toNat + tm.yday) +
      (tm.hour * 3600 + tm.min * 60 + tm.sec)) % 2 ^ 32 ↔ tm.year + 299 < 2 ^ 31 := by
  rw [mktime_eq tm since fits, Int.emod_eq_emod_iff_emod_sub_eq_zero, add_sub_cancel_left]
  rcases overflowed_eq _ since fits with ⟨small, none⟩ | ⟨large, one | more⟩
  · simpa [none] using small
  · rw [one]
    omega
  · rw [more]
    omega

/-- 1 January 2000. -/
theorem mktime_exact_2000 : (70 : Int) ≤ 100 ∧
    mktime ⟨0, 0, 0, 1, 0, 100, 6, 0⟩ = (86400 * (daysOfYears 30 + 0) + (0 * 3600 + 0 * 60 + 0)) % 2 ^ 32 :=
  ⟨by decide, (mktime_exact_iff ⟨0, 0, 0, 1, 0, 100, 6, 0⟩ (by decide) (by decide)).mpr (by decide)⟩

/-- The first second of the last year that `tm_year` can hold. -/
theorem mktime_overflows : ∃ tm : Tm, 70 ≤ tm.year ∧ tm.year < 2 ^ 31 ∧ tm.yday = 0 ∧
    (tm.hour, tm.min, tm.sec) = (0, 0, 0) ∧ mktime tm ≠
      (86400 * (daysOfYears (tm.year - 70).toNat + tm.yday) + (tm.hour * 3600 + tm.min * 60 + tm.sec)) %
        2 ^ 32 := by
  refine ⟨⟨0, 0, 0, 1, 0, 2147483647, 0, 0⟩, by decide, by decide, rfl, rfl, ?_⟩
  have lost : overflowed 2147483647 = -10737417 := by decide
  rw [mktime_eq _ (by decide) (by decide), Ne, Int.emod_eq_emod_iff_emod_sub_eq_zero, add_sub_cancel_left, lost]
  decide

def isLeapyear (year : Nat) : Nat :=
  if year % 400 = 0 then 1
  else if year % 100 = 0 then 0
  else if year % 4 = 0 then 1
  else 0

def mdays : List Nat := [31, 59, 90, 120, 151, 181, 212, 243, 273, 304, 334, 365]

/-- The `unsigned int` year of the two functions. -/
def Tm.fullYear (tm : Tm) : Nat := ((tm.year + 1900) % 2 ^ 32).toNat

def getyday (tm : Tm) : Tm :=
  { tm with yday :=
      (if tm.mon > 0 then (mdays.getD (tm.mon - 1).toNat 0 : Int) else 0) + tm.mday + isLeapyear tm.fullYear }

/-- `dday_year` of `getwday`, from the three steps. -/
def ddayYear (year : Nat) : Nat :=
  ([1, 6, 4, 2].getD (year / 100 % 4) 0 +
    (year % 100 / 12 + year % 100 % 12 + year % 100 % 12 / 4) % 7) % 7

/-- The conditional in `january0` is one about `59+is_leapyear(year)`. -/
def getwday (tm : Tm) : Tm :=
  let january0 := ddayYear tm.fullYear + (7 - (if 59 + isLeapyear tm.fullYear ≠ 0 then 1 else 0) % 7)
  { tm with wday := (january0 + tm.yday % 7) % 7 - 1 }

section Gregorian

def monthLength (year mon : Nat) : Nat :=
  [31, if Leap year then 29 else 28, 31, 30, 31, 30, 31, 31, 30, 31, 30, 31].getD mon 0

/-- A date and time that exists. -/
structure Date where
  year : Nat
  mon : Nat
  mday : Nat
  hour : Nat
  min : Nat
  sec : Nat
  since : 1970 ≤ year
  year_fits : year < 2 ^ 31 + 1900
  mon_lt : mon < 12
  mday_pos : 1 ≤ mday
  mday_le : mday ≤ monthLength year mon
  time : hour < 24 ∧ min < 60 ∧ sec < 60

namespace Date

/-- The days since 1 January of the year. -/
def yday (date : Date) : Nat := ((List.range date.mon).map (monthLength date.year)).sum + (date.mday - 1)

/-- The days since 1 January 1970. -/
def days (date : Date) : Nat := daysOfYears (date.year - 1970) + date.yday

/-- 1 January 1970 was a Thursday. -/
def weekday (date : Date) : Nat := (date.days + 4) % 7

def seconds (date : Date) : Nat := 86400 * date.days + date.hour * 3600 + date.min * 60 + date.sec

/-- What `gettimeofday` reads from the clock. -/
def tm (date : Date) : Tm where
  sec := date.sec
  min := date.min
  hour := date.hour
  mday := date.mday
  mon := date.mon
  year := date.year - 1900
  wday := 0
  yday := 0

end Date

end Gregorian

theorem is_leapyear_eq (year : Nat) : isLeapyear year = if Leap year then 1 else 0 := by
  by_cases leap : Leap year
  · rw [if_pos leap]
    unfold Leap at leap
    unfold isLeapyear
    split_ifs <;> omega
  · rw [if_neg leap]
    unfold Leap at leap
    unfold isLeapyear
    split_ifs <;> omega

/-- The year that the two functions compute with. -/
theorem Date.full_year (date : Date) : date.tm.fullYear = date.year := by
  have since := date.since
  have fits := date.year_fits
  change ((date.year - 1900 + 1900 : Int) % 2 ^ 32).toNat = _
  omega

/-- `getyday` is one too large, and two in January and February of a leap year. -/
theorem getyday_eq (date : Date) : (getyday date.tm).yday =
    date.yday + 1 + if Leap date.year ∧ date.mon < 2 then 1 else 0 := by
  rw [getyday, date.full_year, is_leapyear_eq]
  obtain ⟨year, mon, mday, hour, min, sec, -, -, small, real, -, -⟩ := date
  simp only [Date.tm, Date.yday]
  by_cases leap : Leap year
  · interval_cases mon <;> simp [mdays, monthLength, leap, List.range_succ] <;> omega
  · interval_cases mon <;> simp [mdays, monthLength, leap, List.range_succ] <;> omega

theorem days_since_eq (since : 1970 ≤ year) :
    daysOfYears (year - 1970) + isLeapyear year + 719527 + year / 100 = 365 * year + year / 4 + year / 400 := by
  have days := days_of_years_eq (year - 1970)
  unfold isLeapyear
  split_ifs <;> omega

/-- The doomsday rule, which has Monday for 0: the day of 28 February, or 29 February. -/
theorem dday_year_eq (since : 1970 ≤ year) :
    (daysOfYears (year - 1970) + 4) % 7 = (ddayYear year + 6 + 6 * isLeapyear year) % 7 := by
  have days := days_since_eq since
  have quarter : year / 4 = 25 * (year / 100) + year % 100 / 4 := by omega
  have steps : year % 100 / 12 + year % 100 % 12 + year % 100 % 12 / 4 + 14 * (year % 100 / 12) =
      year % 100 + year % 100 / 4 := by omega
  have century : year / 100 % 4 < 4 := Nat.mod_lt _ (by omega)
  rw [ddayYear]
  generalize year % 100 / 12 + year % 100 % 12 + year % 100 % 12 / 4 = sum at steps ⊢
  generalize phase : year / 100 % 4 = c at century ⊢
  have total : daysOfYears (year - 1970) + isLeapyear year + 719527 = 146097 * (year / 400) + 36524 * c +
      364 * (year % 100) + sum + 14 * (year % 100 / 12) := by omega
  clear days quarter steps phase
  interval_cases c <;> simp only [List.getD_cons_zero, List.getD_cons_succ] <;> omega

/-- The weekday is right in the years without a leap day, except that Saturday is -1. -/
theorem getwday_iff (date : Date) : (getwday (getyday date.tm)).wday = date.weekday ↔
    ¬ Leap date.year ∧ date.weekday ≠ 6 := by
  have first := dday_year_eq date.since
  have yday := getyday_eq date
  have year : (getyday date.tm).fullYear = date.year := date.full_year
  have january0 : (if 59 + isLeapyear date.year ≠ 0 then 1 else 0) % 7 = 1 := by
    rw [if_pos (by omega)]
  rw [getwday, year, january0, Date.weekday, Date.days]
  rw [is_leapyear_eq] at first
  by_cases leap : Leap date.year
  · simp only [leap, true_and, if_true, not_true, false_and, iff_false] at first yday ⊢
    rw [yday]
    split <;> omega
  · simp only [leap, false_and, if_false, not_false_eq_true, true_and] at first yday ⊢
    rw [yday]
    omega

/-- How far the start time is ahead. -/
theorem start_time_eq (date : Date) : mktime (getwday (getyday date.tm)) =
    (date.seconds + 86400 * (1 + (if Leap date.year ∧ date.mon < 2 then 1 else 0) +
      overflowed (date.year - 1900))) % 2 ^ 32 := by
  have since := date.since
  have fits := date.year_fits
  have year : (getwday (getyday date.tm)).year = date.year - 1900 := rfl
  have yday : (getwday (getyday date.tm)).yday = _ := getyday_eq date
  have count : (date.year - 1900 - 70 : Int).toNat = date.year - 1970 := by omega
  rw [mktime_eq _ (by omega) (by omega), yday, year, count, Date.seconds, Date.days]
  change (_ + (date.hour * 3600 + date.min * 60 + date.sec : Int) + _) % _ = _
  congr 1
  push_cast
  linarith

/-- No date gets the right day of the year or start time. The day is one too large, two in
January and February of a leap year. The weekday is wrong in leap years and on Saturdays. -/
theorem calendar_fields (date : Date) :
    (getyday date.tm).yday = date.yday + 1 + (if Leap date.year ∧ date.mon < 2 then 1 else 0) ∧
      ((getwday (getyday date.tm)).wday = date.weekday ↔ ¬ Leap date.year ∧ date.weekday ≠ 6) ∧
      mktime (getwday (getyday date.tm)) ≠ date.seconds % 2 ^ 32 := by
  refine ⟨getyday_eq date, getwday_iff date, ?_⟩
  have since := date.since
  have fits := date.year_fits
  rw [start_time_eq, Ne, Int.emod_eq_emod_iff_emod_sub_eq_zero, add_sub_cancel_left]
  rcases overflowed_eq (date.year - 1900) (by omega) (by omega) with
    ⟨-, none⟩ | ⟨-, one | more⟩
  · rw [none]
    split <;> omega
  · rw [one]
    split <;> omega
  · rw [more]
    split <;> omega

/-- 1 January 1970, a Thursday, is taken for the day after; the clock starts with 86400. -/
theorem epoch_is_a_day_late : ∃ date : Date, date.yday = 0 ∧ date.seconds = 0 ∧
    (getyday date.tm).yday = 1 ∧ mktime (getwday (getyday date.tm)) = 86400 :=
  ⟨⟨1970, 0, 1, 0, 0, 0, by decide, by decide, by decide, by decide, by decide, by decide⟩, by decide⟩

/-- The statics. -/
structure Clock where
  startTime : UInt32
  startTicks : UInt32

structure Timeval where
  sec : UInt32
  usec : UInt32
  deriving DecidableEq

/-- `date` is the date of the CMOS and `first` what `clock` gives when the clock is started. -/
def startClock (c : Clock) (date : Tm) (first : UInt32) : Clock :=
  if c.startTime = 0 then ⟨UInt32.ofNat (mktime (getwday (getyday date))).toNat, first⟩ else c

/-- Both reads of `clock` for the result give `ticks`. -/
def gettimeofday (c : Clock) (date : Tm) (first ticks : UInt32) : Timeval × Clock :=
  let c := startClock c date first
  (⟨c.startTime + (ticks - c.startTicks) / 100, (ticks - c.startTicks) * 1000000 / 100 % 1000000⟩, c)

def Clock.elapsed (c : Clock) (ticks : UInt32) : Nat := (ticks - c.startTicks).toNat

/-- The lexicographic order. -/
def Timeval.NotAfter (a b : Timeval) : Prop :=
  a.sec.toNat < b.sec.toNat ∨ (a.sec.toNat = b.sec.toNat ∧ a.usec.toNat ≤ b.usec.toNat)

def Timeval.Exact (a : Timeval) (elapsed : Nat) : Prop := a.usec.toNat = elapsed % 100 * 10000

/-- What the product loses is a whole number of seconds. -/
def Unharmed (elapsed : Nat) : Prop := 390625 ∣ elapsed * 1000000 / 2 ^ 32

instance (a b : Timeval) : Decidable (a.NotAfter b) := inferInstanceAs (Decidable (_ ∨ _))
instance (a : Timeval) (elapsed : Nat) : Decidable (a.Exact elapsed) := inferInstanceAs (Decidable (_ = _))
instance (elapsed : Nat) : Decidable (Unharmed elapsed) := inferInstanceAs (Decidable (_ ∣ _))

section Call

variable {c started : Clock} {date : Tm} {first ticks : UInt32} {now : Timeval}
  (call : gettimeofday c date first ticks = (now, started))
include call

theorem gettimeofday_sec :
    now.sec.toNat = (started.startTime.toNat + started.elapsed ticks / 100) % 2 ^ 32 := by
  obtain ⟨rfl, rfl⟩ := Prod.mk.inj call
  simp [Clock.elapsed]

theorem gettimeofday_usec :
    now.usec.toNat = started.elapsed ticks * 1000000 % 2 ^ 32 / 100 % 1000000 := by
  obtain ⟨rfl, rfl⟩ := Prod.mk.inj call
  simp [Clock.elapsed]

theorem exact_iff : now.Exact (started.elapsed ticks) ↔ Unharmed (started.elapsed ticks) := by
  rw [Timeval.Exact, Unharmed, gettimeofday_usec call]
  omega

end Call

/-- Two calls with the same `start_ticks` agree with the ticks exactly if the products lose nothing and
`tv_sec` does not wrap between them. -/
theorem gettimeofday_consistent_iff (c started : Clock) (date date' : Tm) (first first' ticks ticks' : UInt32)
    (now later : Timeval) (call : gettimeofday c date first ticks = (now, started))
    (next : gettimeofday started date' first' ticks' = (later, started))
    (order : started.elapsed ticks ≤ started.elapsed ticks') :
    now.NotAfter later ∧ now.Exact (started.elapsed ticks) ∧ later.Exact (started.elapsed ticks') ↔
      Unharmed (started.elapsed ticks) ∧ Unharmed (started.elapsed ticks') ∧
        (started.startTime.toNat + started.elapsed ticks' / 100 < 2 ^ 32 ∨
          2 ^ 32 ≤ started.startTime.toNat + started.elapsed ticks / 100) := by
  rw [← exact_iff call, ← exact_iff next, Timeval.NotAfter, Timeval.Exact, Timeval.Exact,
    gettimeofday_sec call, gettimeofday_sec next]
  have small := (ticks' - started.startTicks).toNat_lt
  have start := started.startTime.toNat_lt
  rw [← Clock.elapsed] at small
  omega

/-- The first second and a half. -/
theorem gettimeofday_consistent_at_start :
    (⟨1, 0⟩ : Timeval).NotAfter ⟨2, 500000⟩ ∧ (⟨1, 0⟩ : Timeval).Exact 0 ∧ (⟨2, 500000⟩ : Timeval).Exact 150 :=
  (gettimeofday_consistent_iff ⟨1, 7⟩ ⟨1, 7⟩ ⟨0, 0, 0, 1, 0, 70, 0, 0⟩ ⟨0, 0, 0, 1, 0, 70, 0, 0⟩ 0 0 7 157 ⟨1, 0⟩
    ⟨2, 500000⟩ rfl rfl (by decide)).mpr ⟨by decide, by decide, by decide⟩

/-- After 43 seconds the time goes back within a second. -/
theorem gettimeofday_goes_back : ∃ (started : Clock) (date : Tm) (now later : Timeval),
    gettimeofday started date 0 4294 = (now, started) ∧ gettimeofday started date 0 4295 = (later, started) ∧
      started.elapsed 4294 ≤ started.elapsed 4295 ∧ ¬ now.NotAfter later ∧ ¬ later.Exact (started.elapsed 4295) :=
  ⟨⟨1, 0⟩, ⟨0, 0, 0, 1, 0, 70, 0, 0⟩, ⟨43, 940000⟩, ⟨43, 327⟩, rfl, rfl, by decide, by decide, by decide⟩

end MeinOS.Calendar
