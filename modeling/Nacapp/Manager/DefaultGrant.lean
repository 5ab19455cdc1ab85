import Nacapp.Manager.AccessTimes
import Nacapp.Manager.RefusedGrants

/-!
# The year of a default grant

`defaultSchedule` builds a daily interval from now to the same time next year.  The number of
repetitions it passes is the number of days between the two dates; the group library takes it
as the days from one repetition to the next.

`default_grant_covers_iff`: in the year after a default grant, the schedule that is stored
covers the day of the grant and the day it ends on, and no day between them.
-/

namespace Nacapp

/-! ## Dates of the calendar -/

namespace Date

/-- A date of the calendar. -/
def IsValid (d : Date) : Prop :=
  1 ≤ d.year ∧ 1 ≤ d.month ∧ d.month ≤ 12 ∧ 1 ≤ d.day ∧ d.day ≤ endOfMonthDay d.year d.month

instance (d : Date) : Decidable d.IsValid := inferInstanceAs (Decidable (_ ∧ _))

theorem endOfMonthDay_le (year month : ℕ) : endOfMonthDay year month ≤ 31 := by
  unfold endOfMonthDay
  split
  · split <;> omega
  · split <;> omega

/-- A month is at most one day shorter in another year. -/
theorem endOfMonthDay_le_succ (year year' month : ℕ) :
    endOfMonthDay year month ≤ endOfMonthDay year' month + 1 := by
  unfold endOfMonthDay
  split
  · split <;> split <;> omega
  · omega

/-- The days of the first months, in two years. -/
theorem sum_endOfMonthDay_le (year year' n : ℕ) :
    ((List.range n).map fun m => endOfMonthDay year (m + 1)).sum ≤
      ((List.range n).map fun m => endOfMonthDay year' (m + 1)).sum + n := by
  induction n with
  | zero => exact le_rfl
  | succ n ih =>
    have hmonth := endOfMonthDay_le_succ year year' (n + 1)
    rw [List.range_succ, List.map_append, List.map_append, List.sum_append, List.sum_append,
      List.map_singleton, List.map_singleton, List.sum_singleton, List.sum_singleton]
    omega

/-- **A year later is later.** -/
theorem dayNumber_lt_addYear {d : Date} (h : d.IsValid) :
    d.dayNumber < d.addYear.dayNumber := by
  obtain ⟨hyear, -, hmonth, -, hday⟩ := h
  have hlast := endOfMonthDay_le d.year d.month
  have hmonths := sum_endOfMonthDay_le d.year (d.year + 1) (d.month - 1)
  obtain ⟨day, hnext⟩ : ∃ day, d.addYear = ⟨d.year + 1, d.month, day⟩ := by
    rw [addYear]
    split <;> exact ⟨_, rfl⟩
  rw [hnext, dayNumber, dayNumber]
  dsimp only
  omega

end Date

/-! ## Times of a year -/

namespace TimeStamp

/-- Seconds from the start of the calendar. -/
def toSeconds (ts : TimeStamp) : ℕ := 86400 * ts.date.dayNumber + ts.seconds

/-- `ptime + years(1)`. -/
def addYear (ts : TimeStamp) : TimeStamp := ⟨ts.date.addYear, ts.seconds⟩

/-- A date of the calendar and a second of a day. -/
def IsValid (ts : TimeStamp) : Prop := ts.date.IsValid ∧ ts.seconds < 86400

instance (ts : TimeStamp) : Decidable ts.IsValid := inferInstanceAs (Decidable (_ ∧ _))

/-- The time is in the year from `now`. -/
def InYearFrom (ts now : TimeStamp) : Prop :=
  now.toSeconds ≤ ts.toSeconds ∧ ts.toSeconds < now.addYear.toSeconds

instance (ts now : TimeStamp) : Decidable (ts.InYearFrom now) :=
  inferInstanceAs (Decidable (_ ∧ _))

/-- The times are on the same day. -/
def SameDay (ts ts' : TimeStamp) : Prop := ts.date.dayNumber = ts'.date.dayNumber

instance (ts ts' : TimeStamp) : Decidable (ts.SameDay ts') := inferInstanceAs (Decidable (_ = _))

end TimeStamp

/-! ## Daily intervals -/

/-- A daily interval covers the time: its date is one of the dates of the interval, a multiple of
`nRepeats` days after the first, and its hour is one of the hours. -/
def RepetitiveInterval.coversDaily (i : RepetitiveInterval) (ts : TimeStamp) : Prop :=
  i.startDate.date.dayNumber ≤ ts.date.dayNumber ∧
    ts.date.dayNumber ≤ i.endDate.date.dayNumber ∧
    (ts.date.dayNumber - i.startDate.date.dayNumber) % i.nRepeats = 0 ∧
    i.startHour ≤ ts.seconds / 3600 ∧ ts.seconds / 3600 < i.endHour

instance (i : RepetitiveInterval) (ts : TimeStamp) : Decidable (i.coversDaily ts) :=
  inferInstanceAs (Decidable (_ ∧ _))

/-- How the group library reads daily intervals. -/
def ScheduleView.CoversDaily {L : GroupLib} (V : ScheduleView L) : Prop :=
  ∀ s : Schedule, (∀ i ∈ s.whiteIntervals, i.unit = .day) → ∀ ts,
    V.covers s ts ↔ ∃ i ∈ s.whiteIntervals, i.coversDaily ts

/-- Between a start and the first repetition after it there is nothing. -/
theorem sub_mod_eq_zero_iff {s d n : ℕ} (hs : s ≤ d) (hd : d ≤ s + n) :
    (d - s) % n = 0 ↔ d = s ∨ d = s + n := by
  constructor
  · intro h
    rcases Nat.lt_or_ge (d - s) n with hlt | hge
    · rw [Nat.mod_eq_of_lt hlt] at h
      omega
    · omega
  · rintro (rfl | rfl)
    · rw [Nat.sub_self, Nat.zero_mod]
    · rw [Nat.add_sub_cancel_left, Nat.mod_self]

/-- **The default schedule covers** of its year the first day and the last. -/
theorem coversDaily_defaultSchedule_iff {now ts : TimeStamp} (hnow : now.IsValid)
    (hts : ts.IsValid) (hyear : ts.InYearFrom now) :
    (defaultSchedule now).interval.coversDaily ts ↔ ts.SameDay now ∨ ts.SameDay now.addYear := by
  have hlater := Date.dayNumber_lt_addYear hnow.1
  obtain ⟨hfrom, hto⟩ := hyear
  have hsecond := hnow.2
  have hsecond' := hts.2
  rw [TimeStamp.toSeconds, TimeStamp.toSeconds] at hfrom hto
  rw [TimeStamp.addYear] at hto
  dsimp only at hto
  have hstart : now.date.dayNumber ≤ ts.date.dayNumber := by omega
  have hend : ts.date.dayNumber ≤ now.date.addYear.dayNumber := by omega
  have hrepeat := sub_mod_eq_zero_iff
    (n := now.date.addYear.dayNumber - now.date.dayNumber) hstart (by omega)
  rw [RepetitiveInterval.coversDaily, defaultSchedule]
  dsimp only
  rw [hrepeat, Nat.add_sub_cancel' hlater.le]
  constructor
  · rintro ⟨-, -, hday, -⟩
    exact hday
  · intro hday
    exact ⟨hstart, hend, hday, Nat.zero_le _, by omega⟩

namespace Manager

variable {L : GroupLib} {V : ScheduleView L}

/-- The times the schedule of a default grant to the data type covers. -/
def defaultTimes (V : ScheduleView L) (m : Manager L) (entity t : Name) (now : TimeStamp) :
    Set TimeStamp :=
  V.times (V.scheduleNamed (m.grantAccessByDefault entity t now) t SCHEDULE_NAME_EVERY_DAY.toUri)

/-- The schedule that is stored is the default one. -/
theorem defaultTimes_eq (hV : V.StoresByName) {m : Manager L} (hempty : m.groupSchedules = ∅)
    (entity t : Name) (now : TimeStamp) :
    defaultTimes V m entity t now = V.times (some (defaultSchedule now).schedule) := by
  have hname : (defaultSchedule now).name.toUri = SCHEDULE_NAME_EVERY_DAY.toUri := rfl
  rw [defaultTimes, grantAccessByDefault, scheduleNamed_grantAccess hV hempty, if_pos hname]

/-- **A default grant gives access** in its year exactly on the day it is made and on the day it
ends.  In every state a manager reaches. -/
theorem default_grant_covers_iff (hV : V.StoresByName) (hdaily : V.CoversDaily) (p : Name)
    (keysize : ℕ) (ops : List ManagerOp) (entity t : Name) {now ts : TimeStamp}
    (hnow : now.IsValid) (hts : ts.IsValid) (hyear : ts.InYearFrom now) :
    ts ∈ defaultTimes V ((ofPrefix L p keysize).run ops) entity t now ↔
      ts.SameDay now ∨ ts.SameDay now.addYear := by
  have hempty := groupSchedules_run (L := L) p keysize ops
  rw [defaultTimes_eq hV hempty, ← coversDaily_defaultSchedule_iff hnow hts hyear]
  have hwhite : (defaultSchedule now).schedule.whiteIntervals = [(defaultSchedule now).interval] :=
    rfl
  have hcovers := hdaily (defaultSchedule now).schedule (by
    rw [hwhite]
    intro i hi
    rw [List.mem_singleton.mp hi]
    rfl) ts
  rw [hwhite] at hcovers
  constructor
  · rintro ⟨s, hs, hcov⟩
    obtain rfl := Option.some.inj hs
    obtain ⟨i, hi, hi'⟩ := hcovers.mp hcov
    rwa [List.mem_singleton.mp hi] at hi'
  · intro h
    exact ⟨_, rfl, hcovers.mpr ⟨_, List.mem_cons_self, h⟩⟩

/-! ## The day after -/

/-- The schedules of `memoryGroups`, read by the day. -/
def dailySchedules : ScheduleView memoryGroups where
  scheduleOf := memorySchedules.scheduleOf
  covers s ts := ∃ i ∈ s.whiteIntervals, i.coversDaily ts

theorem dailySchedules_storesByName : dailySchedules.StoresByName where
  openDb := memorySchedules_storesByName.openDb
  updateSchedule := memorySchedules_storesByName.updateSchedule
  addMember h n := memorySchedules_storesByName.addMember h n
  updateMemberSchedule := memorySchedules_storesByName.updateMemberSchedule

theorem dailySchedules_coversDaily : dailySchedules.CoversDaily := fun _ _ _ => Iff.rfl

theorem default_grant_covers_its_evening :
    (⟨⟨2017, 7, 3⟩, 72000⟩ : TimeStamp) ∈
        defaultTimes dailySchedules ((ofPrefix memoryGroups [Component.of "manager"] 2048).run [])
          [Component.of "alice"] [Component.of "health"] ⟨⟨2017, 7, 3⟩, 43200⟩ ↔
      (⟨⟨2017, 7, 3⟩, 72000⟩ : TimeStamp).SameDay ⟨⟨2017, 7, 3⟩, 43200⟩ ∨
        (⟨⟨2017, 7, 3⟩, 72000⟩ : TimeStamp).SameDay
          (TimeStamp.addYear ⟨⟨2017, 7, 3⟩, 43200⟩) :=
  default_grant_covers_iff dailySchedules_storesByName dailySchedules_coversDaily
    [Component.of "manager"] 2048 [] [Component.of "alice"] [Component.of "health"]
    (by decide) (by decide) (by decide)

/-- The day after a default grant is not covered. -/
theorem default_grant_misses_next_day :
    ¬ ∀ (L : GroupLib) (V : ScheduleView L), V.StoresByName → V.CoversDaily →
      ∀ (p : Name) (keysize : ℕ) (ops : List ManagerOp) (entity t : Name) (now ts : TimeStamp),
        now.IsValid → ts.IsValid → ts.InYearFrom now →
          ts ∈ defaultTimes V ((ofPrefix L p keysize).run ops) entity t now := by
  intro h
  have hcovers := h memoryGroups dailySchedules dailySchedules_storesByName
    dailySchedules_coversDaily [Component.of "manager"] 2048 [] [Component.of "alice"]
    [Component.of "health"] ⟨⟨2017, 7, 3⟩, 43200⟩ ⟨⟨2017, 7, 4⟩, 43200⟩ (by decide) (by decide)
    (by decide)
  rw [defaultTimes_eq dailySchedules_storesByName rfl] at hcovers
  obtain ⟨s, hs, i, hi, hday⟩ := hcovers
  obtain rfl := Option.some.inj hs
  rw [List.mem_singleton.mp hi] at hday
  exact absurd hday (by decide)

end Manager

end Nacapp
