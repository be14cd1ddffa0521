import Mathlib.Algebra.BigOperators.Intervals
import Mathlib.Algebra.Order.BigOperators.Group.Finset
import Mathlib.Data.List.Lex
import Mathlib.Data.Nat.Init
import Mathlib.Tactic.IntervalCases

/-!
# The Gregorian calendar

Dates, and clock times with a weekday, counted in days and seconds from the start of year 0.

* `Date.Valid`: the month is one of the twelve, and the day one of its days.
* `Date.dayNumber` counts the days; `dayNumber_prevDay` says that `prevDay` is one day earlier, also
  across the first of a month and of a year.
* `Stamp.Earlier`: one valid stamp lies a number of seconds before another one, and its weekday is
  as many days before.
* `Stamp.key` lists the fields of a stamp; `key_lt_iff` says that they are ordered like the seconds.
-/

namespace Calendar

/-- The leap years: every fourth, but of the hundreds every fourth only. -/
def IsLeap (year : ℕ) : Prop := year % 4 = 0 ∧ (year % 100 ≠ 0 ∨ year % 400 = 0)

instance (year : ℕ) : Decidable (IsLeap year) := inferInstanceAs (Decidable (_ ∧ _))

/-- The number of days of a month. -/
def monthLength (year : ℕ) : ℕ → ℕ
  | 1 => 31
  | 2 => if IsLeap year then 29 else 28
  | 3 => 31
  | 4 => 30
  | 5 => 31
  | 6 => 30
  | 7 => 31
  | 8 => 31
  | 9 => 30
  | 10 => 31
  | 11 => 30
  | 12 => 31
  | _ => 0

/-- The days of a year before a month. -/
def daysBeforeMonth (year month : ℕ) : ℕ := ∑ m ∈ Finset.Ico 1 month, monthLength year m

/-- The days before a year. -/
def daysBeforeYear (year : ℕ) : ℕ := ∑ y ∈ Finset.range year, daysBeforeMonth y 13

/-- A date. -/
@[ext]
structure Date where
  year : ℕ
  month : ℕ
  day : ℕ
  deriving DecidableEq

namespace Date

/-- The date is one of the calendar. -/
structure Valid (d : Date) : Prop where
  month : 1 ≤ d.month ∧ d.month ≤ 12
  day : 1 ≤ d.day ∧ d.day ≤ monthLength d.year d.month

/-- The number of days up to a date. -/
def dayNumber (d : Date) : ℕ := daysBeforeYear d.year + daysBeforeMonth d.year d.month + d.day

/-- The date before. -/
def prevDay (d : Date) : Date :=
  if 1 < d.day then { d with day := d.day - 1 }
  else if 1 < d.month then ⟨d.year, d.month - 1, monthLength d.year (d.month - 1)⟩
  else ⟨d.year - 1, 12, 31⟩

end Date

variable {d : Date}

theorem monthLength_pos {year month : ℕ} (h : 1 ≤ month ∧ month ≤ 12) :
    1 ≤ monthLength year month := by
  obtain ⟨hpos, hle⟩ := h
  interval_cases month <;> simp only [monthLength] <;> (try split_ifs) <;> decide

theorem monthLength_le (year month : ℕ) : monthLength year month ≤ 31 := by
  rw [monthLength.eq_def]
  split <;> (try split_ifs) <;> decide

/-- The days before the next month. -/
theorem daysBeforeMonth_succ (year : ℕ) {month : ℕ} (h : 1 ≤ month) :
    daysBeforeMonth year (month + 1) = daysBeforeMonth year month + monthLength year month :=
  Finset.sum_Ico_succ_top h _

/-- The days before the next year. -/
theorem daysBeforeYear_succ (year : ℕ) :
    daysBeforeYear (year + 1) = daysBeforeYear year + daysBeforeMonth year 13 :=
  Finset.sum_range_succ _ _

theorem daysBeforeMonth_one (year : ℕ) : daysBeforeMonth year 1 = 0 := by
  rw [daysBeforeMonth, Finset.Ico_self, Finset.sum_empty]

theorem Date.Valid.prevDay (h : d.Valid) : d.prevDay.Valid := by
  obtain ⟨⟨hmonth, hmonth'⟩, hday, hday'⟩ := h
  rw [Date.prevDay]
  split_ifs with hfirst hjanuary
  · exact ⟨⟨hmonth, hmonth'⟩, by simp only; omega, by simp only; omega⟩
  · -- the last day of the month before
    have hprev : 1 ≤ d.month - 1 ∧ d.month - 1 ≤ 12 := by omega
    exact ⟨hprev, monthLength_pos hprev, le_rfl⟩
  · exact ⟨⟨Nat.one_le_ofNat, le_refl 12⟩, Nat.one_le_ofNat, le_refl 31⟩

/-- The date before is one day earlier. -/
theorem Date.Valid.dayNumber_prevDay (h : d.Valid) (hyear : 0 < d.year) :
    d.prevDay.dayNumber + 1 = d.dayNumber := by
  obtain ⟨⟨hmonth, hmonth'⟩, hday, hday'⟩ := h
  rw [Date.prevDay, Date.dayNumber, Date.dayNumber]
  split_ifs with hfirst hjanuary
  · simp only
    omega
  · -- the last day of the month before
    have hmonths := daysBeforeMonth_succ d.year (by omega : 1 ≤ d.month - 1)
    rw [Nat.sub_add_cancel (by omega)] at hmonths
    simp only
    omega
  · -- the last day of the year before
    have hyears := daysBeforeYear_succ (d.year - 1)
    rw [Nat.sub_add_cancel (by omega), daysBeforeMonth_succ _ (by decide)] at hyears
    have hdecember : monthLength (d.year - 1) 12 = 31 := rfl
    have hone : d.month = 1 := by omega
    rw [hone, daysBeforeMonth_one]
    simp only
    omega

theorem daysBeforeMonth_mono (year : ℕ) {month month' : ℕ} (h : month ≤ month') :
    daysBeforeMonth year month ≤ daysBeforeMonth year month' :=
  Finset.sum_le_sum_of_subset (Finset.Ico_subset_Ico_right h)

theorem daysBeforeYear_mono {year year' : ℕ} (h : year ≤ year') :
    daysBeforeYear year ≤ daysBeforeYear year' :=
  Finset.sum_le_sum_of_subset (Finset.range_mono h)

/-- A date comes before all dates of later months. -/
theorem Date.Valid.dayNumber_le_month (h : d.Valid) :
    d.dayNumber ≤ daysBeforeYear d.year + daysBeforeMonth d.year (d.month + 1) := by
  have hmonths := daysBeforeMonth_succ d.year h.month.1
  have hday := h.day.2
  rw [Date.dayNumber]
  omega

/-- A date comes before all dates of later years. -/
theorem Date.Valid.dayNumber_le_year (h : d.Valid) :
    d.dayNumber ≤ daysBeforeYear (d.year + 1) := by
  have hmonths : daysBeforeMonth d.year (d.month + 1) ≤ daysBeforeMonth d.year 13 :=
    daysBeforeMonth_mono d.year (Nat.succ_le_succ h.month.2)
  have hyears := daysBeforeYear_succ d.year
  exact h.dayNumber_le_month.trans (by omega)

/-- Dates are counted in the order of their years, months and days. -/
theorem Date.Valid.dayNumber_lt {d' : Date} (h : d.Valid) (h' : d'.Valid)
    (hlt : d.year < d'.year ∨ d.year = d'.year ∧
      (d.month < d'.month ∨ d.month = d'.month ∧ d.day < d'.day)) :
    d.dayNumber < d'.dayNumber := by
  have hpos := h'.day.1
  rcases hlt with hyear | ⟨hyear, hmonth | ⟨hmonth, hday⟩⟩
  · have hyears : daysBeforeYear (d.year + 1) ≤ daysBeforeYear d'.year :=
      daysBeforeYear_mono hyear
    refine h.dayNumber_le_year.trans_lt ?_
    rw [Date.dayNumber]
    omega
  · have hmonths : daysBeforeMonth d.year (d.month + 1) ≤ daysBeforeMonth d.year d'.month :=
      daysBeforeMonth_mono d.year hmonth
    refine h.dayNumber_le_month.trans_lt ?_
    rw [Date.dayNumber, ← hyear]
    omega
  · rw [Date.dayNumber, Date.dayNumber, hyear, hmonth]
    omega

/-! ## Clock times -/

/-- A date with its weekday, from 1 on, and a time of day. -/
structure Stamp where
  date : Date
  weekday : ℕ
  hour : ℕ
  minute : ℕ
  second : ℕ
  deriving DecidableEq

namespace Stamp

/-- The stamp is one of the calendar and the clock. -/
structure Valid (s : Stamp) : Prop where
  date : s.date.Valid
  weekday : 1 ≤ s.weekday ∧ s.weekday ≤ 7
  hour : s.hour < 24
  minute : s.minute < 60
  second : s.second < 60

/-- The number of seconds up to a stamp. -/
def seconds (s : Stamp) : ℕ := 86400 * s.date.dayNumber + 3600 * s.hour + 60 * s.minute + s.second

/-- `s` lies `n` seconds before `s'`, and its weekday as many days as its date. -/
structure Earlier (n : ℕ) (s s' : Stamp) : Prop where
  valid : s.Valid
  seconds : s.seconds + n = s'.seconds
  weekday : (s.weekday + s'.date.dayNumber) % 7 = (s'.weekday + s.date.dayNumber) % 7

/-- The weekday before. -/
def prevWeekday (weekday : ℕ) : ℕ := if weekday = 1 then 7 else weekday - 1

variable {s : Stamp} {n : ℕ}

/-- The same day, some hours earlier. -/
theorem Valid.earlier_hours (h : s.Valid) (hn : n ≤ s.hour) :
    Earlier (3600 * n) { s with hour := s.hour - n } s := by
  refine ⟨⟨h.date, h.weekday, ?_, h.minute, h.second⟩, ?_, rfl⟩
  · exact (Nat.sub_le _ _).trans_lt h.hour
  · simp only [Stamp.seconds]
    omega

/-- The day before, when there are not as many hours left. -/
theorem Valid.earlier_prevDay (h : s.Valid) (hyear : 0 < s.date.year) (hn : s.hour < n)
    (hday : n ≤ 24) :
    Earlier (3600 * n)
      { s with
        date := s.date.prevDay
        weekday := prevWeekday s.weekday
        hour := s.hour + 24 - n } s := by
  -- one day and some hours are taken apart
  have hnumber := h.date.dayNumber_prevDay hyear
  obtain ⟨hfirst, hlast⟩ := h.weekday
  refine ⟨⟨h.date.prevDay, ?_, ?_, h.minute, h.second⟩, ?_, ?_⟩
  · simp only [prevWeekday]
    split_ifs <;> omega
  · simp only
    omega
  · simp only [Stamp.seconds]
    omega
  · simp only [prevWeekday]
    split_ifs <;> omega

/-- The fields of a stamp, without its weekday. -/
def key (s : Stamp) : List ℕ :=
  [s.date.year, s.date.month, s.date.day, s.hour, s.minute, s.second]

theorem Valid.seconds_lt {s' : Stamp} (h : s.Valid) (h' : s'.Valid) (hlt : s.key < s'.key) :
    s.seconds < s'.seconds := by
  have hhour := h.hour
  have hminute := h.minute
  have hsecond := h.second
  simp only [key, List.cons_lt_cons_iff, List.not_lt_nil, and_false, or_false] at hlt
  rw [seconds, seconds]
  by_cases hdate : s.date = s'.date
  · rw [hdate] at hlt ⊢
    omega
  · -- another date, and there are fewer seconds in a day than between two dates
    have hdates : ¬ (s.date.year = s'.date.year ∧ s.date.month = s'.date.month ∧
        s.date.day = s'.date.day) := by
      rintro ⟨hyear, hmonth, hday⟩
      exact hdate (Date.ext hyear hmonth hday)
    have hdays := h.date.dayNumber_lt h'.date (by omega)
    omega

/-- Valid stamps are ordered like their fields. -/
theorem Valid.key_lt_iff {s' : Stamp} (h : s.Valid) (h' : s'.Valid) :
    s.key < s'.key ↔ s.seconds < s'.seconds := by
  refine ⟨h.seconds_lt h', fun hlt => ?_⟩
  rcases lt_trichotomy s.key s'.key with hkey | hkey | hkey
  · exact hkey
  · -- equal fields count the same seconds
    simp only [key, List.cons.injEq, and_true] at hkey
    obtain ⟨hyear, hmonth, hday, hhour, hminute, hsecond⟩ := hkey
    have hdate : s.date = s'.date := Date.ext hyear hmonth hday
    rw [seconds, seconds, hdate, hhour, hminute, hsecond] at hlt
    exact absurd hlt (lt_irrefl _)
  · exact absurd (h'.seconds_lt h hkey) (Nat.lt_asymm hlt)

end Stamp

end Calendar
