import Mathlib.Algebra.GroupWithZero.Nat
import Nacapp.Ndn.Name

/-!
# Times and schedules

The time values that pass through the manager: `ptime` of Boost as a date and the seconds
of the day, the repetitive interval a grant is made for, and the schedule the default
grant builds from the current time.
-/

namespace Nacapp

/-! ## Dates -/

/-- `boost::gregorian::date`. -/
structure Date where
  year : ℕ
  month : ℕ
  day : ℕ
  deriving DecidableEq

namespace Date

def isLeapYear (year : ℕ) : Bool := year % 4 = 0 && (year % 100 ≠ 0 || year % 400 = 0)

/-- `end_of_month_day`. -/
def endOfMonthDay (year month : ℕ) : ℕ :=
  if month = 2 then (if isLeapYear year then 29 else 28)
  else if month ∈ [4, 6, 9, 11] then 30 else 31

/-- The number of days up to and including the date, from the start of year 1. -/
def dayNumber (d : Date) : ℕ :=
  let y := d.year - 1
  365 * y + y / 4 - y / 100 + y / 400 +
    ((List.range (d.month - 1)).map fun m => endOfMonthDay d.year (m + 1)).sum + d.day

/-- `d + years(1)`: the last day of a month stays the last day of it, any other day is kept
as far as the month reaches. -/
def addYear (d : Date) : Date :=
  let last := endOfMonthDay (d.year + 1) d.month
  if d.day = endOfMonthDay d.year d.month then ⟨d.year + 1, d.month, last⟩
  else ⟨d.year + 1, d.month, min d.day last⟩

end Date

/-- `ptime` and `TimeStamp`: a date and the seconds since midnight. -/
structure TimeStamp where
  date : Date
  seconds : ℕ
  deriving DecidableEq

/-! ## Intervals -/

/-- `RepetitiveInterval::RepeatUnit`. -/
inductive RepeatUnit where
  | none
  | day
  | month
  | year
  deriving DecidableEq

structure RepetitiveInterval where
  startDate : TimeStamp
  endDate : TimeStamp
  startHour : ℕ
  endHour : ℕ
  nRepeats : ℕ
  unit : RepeatUnit
  deriving DecidableEq

structure NamedInterval where
  name : Name
  interval : RepetitiveInterval
  deriving DecidableEq

/-- A schedule of the group library: its white intervals. -/
structure Schedule where
  whiteIntervals : List RepetitiveInterval := []
  deriving DecidableEq

def Schedule.addWhiteInterval (s : Schedule) (i : RepetitiveInterval) : Schedule :=
  ⟨s.whiteIntervals ++ [i]⟩

/-- The schedule a grant stores. -/
def NamedInterval.schedule (ni : NamedInterval) : Schedule :=
  Schedule.addWhiteInterval {} ni.interval

/-- `SCHEDULE_NAME_EVERY_DAY`, which the constructor of `NamedInterval` turns into a name. -/
def SCHEDULE_NAME_EVERY_DAY : Name := [Component.of "everyday"]

/-- `defaultSchedule`: from now to the same time next year, all hours, repeated once every
as many days as lie between the two dates. -/
def defaultSchedule (now : TimeStamp) : NamedInterval :=
  let future : TimeStamp := ⟨now.date.addYear, now.seconds⟩
  let days := future.date.dayNumber - now.date.dayNumber
  ⟨SCHEDULE_NAME_EVERY_DAY, ⟨now, future, 0, 24, days, .day⟩⟩

/-- The default schedule repeats after a year. -/
example : (defaultSchedule ⟨⟨2017, 7, 3⟩, 0⟩).interval.nRepeats = 365 := by decide

end Nacapp
