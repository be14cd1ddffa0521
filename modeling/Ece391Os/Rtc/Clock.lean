import Ece391Os.Lib.Calendar
import Ece391Os.Rtc.Device

/-!
# The time of day

`gettime` of `rtc.c`: it stops the clock, reads seven registers, converts them from BCD, and takes
five hours away.

* `readRegisters`, `converted` and `toCst` are its three parts.
* `HoldsStamp` says that the registers hold a stamp of the calendar, `YieldsCalendarTime` that the
  result is the stamp five hours earlier.
* `prevMonth_timeOf`: the `switch` over the months would set the last day of the month before.
* `yieldsCalendarTime_iff`: the `switch` is reached by no stamp, so the result is right exactly if
  the day stays the same or is not the first of a month.
-/

namespace Ece391

open Calendar

/-- `time_t`. No field gets near the bounds of its type. -/
@[ext]
structure Time where
  second : ℤ
  minute : ℤ
  hour : ℤ
  week : ℤ
  day : ℤ
  month : ℤ
  year : ℤ
  deriving DecidableEq

/-- The registers as they have been read. -/
structure RtcRegs where
  second : Byte
  minute : Byte
  hour : Byte
  week : Byte
  day : Byte
  month : Byte
  year : Byte

/-- `get_reg_value` -/
def getRegValue (reg : Byte) (c : Cmos) : Byte × Cmos :=
  let c := c.outb reg Cmos.rtcPort1
  (c.inb, c)

/-- The first part of `gettime`: bit 7 of register B stops the clock while it is read. -/
def readRegisters (c : Cmos) : RtcRegs × Cmos :=
  let c := c.outb 0x0B#8 Cmos.rtcPort1
  let regB := c.inb ||| 0x80#8
  let c := c.outb regB Cmos.rtcPort2
  let (second, c) := getRegValue 0x00#8 c
  let (minute, c) := getRegValue 0x02#8 c
  let (hour, c) := getRegValue 0x04#8 c
  let (week, c) := getRegValue 0x06#8 c
  let (day, c) := getRegValue 0x07#8 c
  let (month, c) := getRegValue 0x08#8 c
  let (year, c) := getRegValue 0x09#8 c
  let regB := regB &&& 0x7F#8
  let c := (c.outb 0x0B#8 Cmos.rtcPort1).outb regB Cmos.rtcPort2
  ({ second, minute, hour, week, day, month, year }, c)

/-- `(reg & 0x0F) + 10*((reg & tens) >> 4)` -/
def fromBcd (reg tens : Byte) : ℤ := (reg &&& 0x0F#8).toNat + 10 * ((reg &&& tens) >>> 4).toNat

/-- The second part of `gettime`. -/
def converted (r : RtcRegs) : Time where
  second := fromBcd r.second 0x70#8
  minute := fromBcd r.minute 0x70#8
  hour := fromBcd r.hour 0x30#8
  week := (r.week &&& 0x07#8).toNat
  day := fromBcd r.day 0x70#8
  month := fromBcd r.month 0x70#8
  year := 2000 + fromBcd r.year 0xF0#8

/-- The `switch` over the months. -/
def prevMonth (t : Time) : Time :=
  match t.month with
  | 1 => { t with day := 31, month := 12, year := t.year - 1 }
  | 2 => { t with day := 31, month := 1 }
  | 3 => { t with day := if t.year % 4 = 0 then 29 else 28, month := 2 }
  | 4 => { t with day := 31, month := 3 }
  | 5 => { t with day := 30, month := 4 }
  | 6 => { t with day := 31, month := 5 }
  | 7 => { t with day := 30, month := 6 }
  | 8 => { t with day := 31, month := 7 }
  | 9 => { t with day := 31, month := 8 }
  | 10 => { t with day := 30, month := 9 }
  | 11 => { t with day := 31, month := 10 }
  | 12 => { t with day := 30, month := 11 }
  | _ => t

/-- The third part of `gettime`, from GMT to CST. -/
def toCst (t : Time) : Time :=
  if t.hour - 5 < 0 then
    let t := { t with hour := t.hour - 5 + 24, week := t.week - 1, day := t.day - 1 }
    let t := if t.week < 1 then { t with week := 7 } else t
    if t.day < 0 then prevMonth t else t
  else { t with hour := t.hour - 5 }

/-- `gettime` -/
def gettime (c : Cmos) : Time × Cmos :=
  let (r, c) := readRegisters c
  (toCst (converted r), c)

/-- A number below 100 in BCD. -/
def bcd (n : ℕ) : Byte := BitVec.ofNat 8 (16 * (n / 10) + n % 10)

/-- The registers hold a stamp in BCD, in 24-hour mode. -/
structure HoldsStamp (c : Cmos) (s : Stamp) : Prop where
  mode : c.regs 0x0B#8 &&& 0x06#8 = 0x02#8
  second : c.regs 0x00#8 = bcd s.second
  minute : c.regs 0x02#8 = bcd s.minute
  hour : c.regs 0x04#8 = bcd s.hour
  week : c.regs 0x06#8 = bcd s.weekday
  day : c.regs 0x07#8 = bcd s.date.day
  month : c.regs 0x08#8 = bcd s.date.month
  year : c.regs 0x09#8 = bcd (s.date.year - 2000)

/-- The fields of a stamp. -/
def timeOf (s : Stamp) : Time where
  second := s.second
  minute := s.minute
  hour := s.hour
  week := s.weekday
  day := s.date.day
  month := s.date.month
  year := s.date.year

/-- The result is a stamp of the calendar, five hours earlier. -/
def YieldsCalendarTime (c : Cmos) (s : Stamp) : Prop :=
  ∃ s' : Stamp, s'.Earlier (3600 * 5) s ∧ (gettime c).1 = timeOf s'

section

variable {c : Cmos} {s : Stamp} {n : ℕ}

/-! ## Reading -/

theorem fromBcd_bcd (hn : n < 80) : fromBcd (bcd n) 0x70#8 = n := by
  interval_cases n <;> rfl

theorem fromBcd_bcd_hour (hn : n < 24) : fromBcd (bcd n) 0x30#8 = n := by
  interval_cases n <;> rfl

theorem fromBcd_bcd_year (hn : n < 100) : fromBcd (bcd n) 0xF0#8 = n := by
  interval_cases n <;> rfl

/-- Register B is set and restored, the others are read. -/
theorem readRegisters_eq (c : Cmos) :
    (readRegisters c).1 =
      { second := c.regs 0x00#8, minute := c.regs 0x02#8, hour := c.regs 0x04#8,
        week := c.regs 0x06#8, day := c.regs 0x07#8, month := c.regs 0x08#8,
        year := c.regs 0x09#8 } := by
  simp [readRegisters, getRegValue, Cmos.inb]

/-- The registers are those of a stamp. -/
theorem gettime_eq (hs : s.Valid) (hyear : 2000 ≤ s.date.year ∧ s.date.year ≤ 2099)
    (hregs : HoldsStamp c s) : (gettime c).1 = toCst (timeOf s) := by
  -- the masks cut no digit off a day, a month or a weekday
  have hday : s.date.day < 80 := by
    have hlast := monthLength_le s.date.year s.date.month
    have := hs.date.day.2
    omega
  have hmonth : s.date.month < 80 := by
    have := hs.date.month.2
    omega
  have hweek : ((bcd s.weekday &&& 0x07#8).toNat : ℤ) = s.weekday := by
    obtain ⟨hfirst, hlast⟩ := hs.weekday
    generalize s.weekday = w at hfirst hlast
    interval_cases w <;> rfl
  -- `2000 +` two digits is the year again
  have hcentury : (2000 : ℤ) + ((s.date.year - 2000 : ℕ) : ℤ) = s.date.year := by omega
  have hconverted : converted (readRegisters c).1 = timeOf s := by
    rw [readRegisters_eq, converted, hregs.second, hregs.minute, hregs.hour, hregs.week, hregs.day,
      hregs.month, hregs.year, fromBcd_bcd (by have := hs.second; omega),
      fromBcd_bcd (by have := hs.minute; omega), fromBcd_bcd_hour hs.hour, hweek, fromBcd_bcd hday,
      fromBcd_bcd hmonth, fromBcd_bcd_year (by omega), hcentury, timeOf]
  have hget : (gettime c).1 = toCst (converted (readRegisters c).1) := rfl
  rw [hget, hconverted]

/-! ## Five hours -/

theorem toCst_hours (hhour : 5 ≤ s.hour) :
    toCst (timeOf s) = timeOf { s with hour := s.hour - 5 } := by
  have hno : ¬ ((s.hour : ℤ) - 5 < 0) := by omega
  rw [toCst, timeOf, if_neg hno, timeOf]
  congr 1
  simp only
  omega

/-- The day before, in the same month. -/
theorem toCst_prevDay (hs : s.Valid) (hhour : s.hour < 5) (hday : s.date.day ≠ 1) :
    toCst (timeOf s) = timeOf
      { s with
        date := s.date.prevDay
        weekday := Stamp.prevWeekday s.weekday
        hour := s.hour + 24 - 5 } := by
  have hpos := hs.date.day.1
  have hfirst := hs.weekday.1
  have hearly : (s.hour : ℤ) - 5 < 0 := by omega
  -- the day before is at least 1, so the `switch` is left out
  have hstay : ¬ ((s.date.day : ℤ) - 1 < 0) := by omega
  have hprev : s.date.prevDay = { s.date with day := s.date.day - 1 } :=
    if_pos (by omega)
  rw [toCst, timeOf, if_pos hearly, timeOf, hprev]
  -- the weekday before Sunday is Saturday
  by_cases hsunday : s.weekday = 1
  · simp [hsunday, hstay, Stamp.prevWeekday]
    omega
  · have hweek : ¬ ((s.weekday : ℤ) - 1 < 1) := by omega
    simp [hsunday, hweek, hstay, Stamp.prevWeekday]
    omega

/-- The first of a month is followed back by day 0. -/
theorem toCst_first (hhour : s.hour < 5) (hday : s.date.day = 1) :
    (toCst (timeOf s)).day = 0 := by
  have hearly : (s.hour : ℤ) - 5 < 0 := by omega
  rw [toCst, timeOf, if_pos hearly]
  simp only [hday]
  split_ifs <;> simp_all

/-- From 2000 to 2099 every fourth year is a leap year. -/
theorem isLeap_iff {year : ℕ} (hyear : 2000 ≤ year ∧ year ≤ 2099) :
    IsLeap year ↔ (year : ℤ) % 4 = 0 := by
  rw [IsLeap]
  omega

/-- The `switch`, which is left out for day 0, would set the last day of the month before. -/
theorem prevMonth_timeOf (hs : s.Valid) (hyear : 2000 ≤ s.date.year ∧ s.date.year ≤ 2099)
    (hday : s.date.day = 1) :
    prevMonth { timeOf s with day := 0 } = timeOf { s with date := s.date.prevDay } := by
  have hmonths := hs.date.month
  have hleap := isLeap_iff hyear
  -- on the first of a month `prevDay` goes to the month before
  have hprev : s.date.prevDay =
      if 1 < s.date.month then
        ⟨s.date.year, s.date.month - 1, monthLength s.date.year (s.date.month - 1)⟩
      else ⟨s.date.year - 1, 12, 31⟩ := if_neg (by omega)
  rw [hprev, prevMonth, timeOf, timeOf]
  obtain ⟨hfirst, hlast⟩ := hmonths
  generalize s.date.month = month at hfirst hlast
  interval_cases month
  all_goals simp [monthLength, hleap]
  -- what is left is the year before a January
  omega

end

/-- The clock yields the calendar time exactly if it is five o'clock or later, or not the first of a
month. -/
theorem yieldsCalendarTime_iff {c : Cmos} {s : Stamp} (hs : s.Valid)
    (hyear : 2000 ≤ s.date.year ∧ s.date.year ≤ 2099) (hregs : HoldsStamp c s) :
    YieldsCalendarTime c s ↔ 5 ≤ s.hour ∨ s.date.day ≠ 1 := by
  rw [YieldsCalendarTime, gettime_eq hs hyear hregs]
  constructor
  · rintro ⟨s', hearlier, hresult⟩
    by_contra hborrow
    obtain ⟨hhour, hday⟩ := not_or.mp hborrow
    -- day 0 is no day of the calendar
    have hzero := toCst_first (s := s) (by omega) (not_not.mp hday)
    rw [hresult] at hzero
    have hpos := hearlier.valid.date.day.1
    simp only [timeOf] at hzero
    omega
  · intro hcond
    by_cases hhour : 5 ≤ s.hour
    · -- the five hours are taken from the same day
      exact ⟨_, hs.earlier_hours hhour, toCst_hours hhour⟩
    · -- the day before is in the same month
      have hday := hcond.resolve_left hhour
      exact ⟨_, hs.earlier_prevDay (by omega) (by omega) (by decide),
        toCst_prevDay hs (by omega) hday⟩

/-- A clock that has been set to a stamp. -/
def clockAt (s : Stamp) : Cmos where
  address := 0#8
  regs := fun a =>
    if a = 0x00#8 then bcd s.second else if a = 0x02#8 then bcd s.minute
    else if a = 0x04#8 then bcd s.hour else if a = 0x06#8 then bcd s.weekday
    else if a = 0x07#8 then bcd s.date.day else if a = 0x08#8 then bcd s.date.month
    else if a = 0x09#8 then bcd (s.date.year - 2000) else 0x02#8

theorem holdsStamp_clockAt (s : Stamp) : HoldsStamp (clockAt s) s := by
  constructor <;> simp [clockAt]

/-- Two o'clock on Sunday, 1 April 2001. -/
def firstOfApril : Stamp := ⟨⟨2001, 4, 1⟩, 1, 2, 30, 15⟩

/-- Two o'clock on Monday, 2 April 2001, is nine in the evening of the day before. -/
theorem yieldsCalendarTime_secondOfApril :
    YieldsCalendarTime (clockAt ⟨⟨2001, 4, 2⟩, 2, 2, 30, 15⟩) ⟨⟨2001, 4, 2⟩, 2, 2, 30, 15⟩ := by
  have hvalid : Stamp.Valid ⟨⟨2001, 4, 2⟩, 2, 2, 30, 15⟩ :=
    ⟨⟨by decide, by decide⟩, by decide, by decide, by decide, by decide⟩
  exact (yieldsCalendarTime_iff hvalid (by decide) (holdsStamp_clockAt _)).mpr
    (Or.inr (by decide))

/-- Two o'clock on the first of April becomes nine in the evening of day 0. -/
theorem not_yieldsCalendarTime_firstOfApril :
    firstOfApril.Valid ∧ HoldsStamp (clockAt firstOfApril) firstOfApril ∧
      (gettime (clockAt firstOfApril)).1 =
        { second := 15, minute := 30, hour := 21, week := 7, day := 0, month := 4, year := 2001 } ∧
      ¬ YieldsCalendarTime (clockAt firstOfApril) firstOfApril := by
  have hresult : (gettime (clockAt firstOfApril)).1 =
      { second := 15, minute := 30, hour := 21, week := 7, day := 0, month := 4,
        year := 2001 } := by
    decide +kernel
  refine ⟨⟨⟨by decide, by decide⟩, by decide, by decide, by decide, by decide⟩,
    holdsStamp_clockAt _, hresult, ?_⟩
  rintro ⟨s', hearlier, htime⟩
  -- the result is day 0
  have hpos := hearlier.valid.date.day.1
  have hday := congrArg Time.day (hresult.symm.trans htime)
  simp only [timeOf] at hday
  omega

end Ece391
