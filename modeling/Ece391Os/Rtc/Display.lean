import Ece391Os.Kernel.LibC
import Ece391Os.Lib.Numeral
import Ece391Os.Rtc.Clock

/-!
# The clock on the screen

`display_time` of `rtc.c` writes the result of `gettime` to the last line of the screen, and takes
one hour from it while it prints.

* `displayBuf` is the text, `displayTime` its stores, and `Displayed` what is read off the screen
  behind a call.
* `WellFormed` says that a text shows a date and a time of day in digits, and `dateTime` is the part
  of it that is compared.
* `cst_stamp`: the stamp behind the text, where there is one.
* `displaysInOrder_iff`: of two instants the texts are well-formed and in order exactly if both are
  `Readable` and midnight is not compared with a later hour of its day.
-/

namespace Ece391

open Calendar Numeral

/-- The three letters of a day of the week. -/
def weekLetters (week : ℤ) : Option (List Byte) :=
  match week - 1 with
  | 0 => some (ascii "SUN")
  | 1 => some (ascii "MON")
  | 2 => some (ascii "TUE")
  | 3 => some (ascii "WED")
  | 4 => some (ascii "THU")
  | 5 => some (ascii "FRI")
  | 6 => some (ascii "SAT")
  | _ => none

/-- `n + 0x30` -/
def asciiDigit (n : ℤ) : Byte := BitVec.ofInt 8 (n + 0x30)

/-- `buf[20]` and `buf[21]`, with the daylight saving time "manually set". -/
def hourDigits (hour : ℤ) : Byte × Byte :=
  if hour = 0 then (0x32#8, 0x33#8)
  else (asciiDigit (hour.tdiv 10), asciiDigit (hour.tmod 10 - 1))

/-- `buf` of `display_time`. -/
def displayBuf (t : Time) (letters : List Byte) : List Byte :=
  let buf := ascii "UIUC 0000-00-00 DDD 00:00:00"
  let buf := ((buf.set 16 (letters.getD 0 0#8)).set 17 (letters.getD 1 0#8)).set 18
    (letters.getD 2 0#8)
  let buf := buf.set 5 (asciiDigit (t.year.tdiv 1000))
  let year := t.year.tmod 1000
  let buf := buf.set 6 (asciiDigit (year.tdiv 100))
  let year := year.tmod 100
  let buf := buf.set 7 (asciiDigit (year.tdiv 10))
  let buf := buf.set 8 (asciiDigit (year.tmod 10))
  let buf := buf.set 10 (asciiDigit (t.month.tdiv 10))
  let buf := buf.set 11 (asciiDigit (t.month.tmod 10))
  let buf := buf.set 13 (asciiDigit (t.day.tdiv 10))
  let buf := buf.set 14 (asciiDigit (t.day.tmod 10))
  let buf := buf.set 20 (hourDigits t.hour).1
  let buf := buf.set 21 (hourDigits t.hour).2
  let buf := buf.set 23 (asciiDigit (t.minute.tdiv 10))
  let buf := buf.set 24 (asciiDigit (t.minute.tmod 10))
  let buf := buf.set 26 (asciiDigit (t.second.tdiv 10))
  buf.set 27 (asciiDigit (t.second.tmod 10))

/-- `screen_start`, counted from `VIDEO`. -/
def screenStart : ℕ := (80 * 24 + 52) * 2

/-- The first `n` rounds of the loop at the end of `display_time`, over video memory. -/
def showBuf (buf : List Byte) (video : Buffer) : ℕ → Buffer
  | 0 => video
  | n + 1 =>
    Function.update (Function.update (showBuf buf video n) (screenStart + 2 * n) (buf.getD n 0#8))
      (screenStart + 2 * n + 1) 0x07#8

/-- `display_time`: video memory, or the message that is printed. -/
def displayTime (t : Time) (video : Buffer) : Except String Buffer :=
  match weekLetters t.week with
  | none => .error "Invalid week of the week.\n"
  | some letters => .ok (showBuf (displayBuf t letters) video 28)

/-- The characters of the cells that `display_time` writes. -/
def shownText (video : Buffer) : List Byte :=
  (List.range 28).map fun i => video (screenStart + 2 * i)

/-- This text is on the screen after `gettime` and `display_time`. -/
def Displayed (c : Cmos) (video : Buffer) (text : List Byte) : Prop :=
  ∃ video', displayTime (gettime c).1 video = .ok video' ∧ shownText video' = text

/-- The text has the `w` decimal digits of `v` from position `i` on. -/
def IsField (text : List Byte) (i w v : ℕ) : Prop :=
  ∃ ds, IsPadded 10 w v ds ∧ ((text.drop i).take w).map BitVec.toNat = ds.map (48 + ·)

/-- The text shows a date of the calendar and a time of day. -/
structure ShowsTime (text : List Byte) (d : Date) (hour minute second : ℕ) : Prop where
  date : d.Valid
  clock : hour < 24 ∧ minute < 60 ∧ second < 60
  year : IsField text 5 4 d.year
  month : IsField text 10 2 d.month
  day : IsField text 13 2 d.day
  hour : IsField text 20 2 hour
  minute : IsField text 23 2 minute
  second : IsField text 26 2 second

/-- Every date and time position has a digit, and every field is in its range. -/
def WellFormed (text : List Byte) : Prop :=
  ∃ d hour minute second, ShowsTime text d hour minute second

/-- The date and the time in a text. -/
def dateTime (text : List Byte) : List ℕ :=
  ((text.drop 5).take 10 ++ (text.drop 20).take 8).map BitVec.toNat

section

variable {c : Cmos} {s : Stamp} {t : Time} {text letters : List Byte} {n : ℕ}

/-! ## The text on the screen -/

theorem showBuf_apply (buf : List Byte) (video : Buffer) (n i : ℕ) :
    showBuf buf video n (screenStart + 2 * i) =
      if i < n then buf.getD i 0#8 else video (screenStart + 2 * i) := by
  induction n with
  | zero => rfl
  | succ n ih =>
    -- the attributes are at the odd offsets
    rw [showBuf, Function.update_of_ne (by omega)]
    by_cases hi : i = n
    · rw [hi, Function.update_self, if_pos n.lt_succ_self]
    · rw [Function.update_of_ne (by omega), ih]
      exact if_congr (by omega) rfl rfl

/-- The text, character by character. -/
theorem displayBuf_eq (t : Time) (letters : List Byte) :
    displayBuf t letters =
      [0x55#8, 0x49#8, 0x55#8, 0x43#8, 0x20#8,
        asciiDigit (t.year.tdiv 1000), asciiDigit ((t.year.tmod 1000).tdiv 100),
        asciiDigit (((t.year.tmod 1000).tmod 100).tdiv 10),
        asciiDigit (((t.year.tmod 1000).tmod 100).tmod 10), 0x2D#8,
        asciiDigit (t.month.tdiv 10), asciiDigit (t.month.tmod 10), 0x2D#8,
        asciiDigit (t.day.tdiv 10), asciiDigit (t.day.tmod 10), 0x20#8,
        letters.getD 0 0#8, letters.getD 1 0#8, letters.getD 2 0#8, 0x20#8,
        (hourDigits t.hour).1, (hourDigits t.hour).2, 0x3A#8,
        asciiDigit (t.minute.tdiv 10), asciiDigit (t.minute.tmod 10), 0x3A#8,
        asciiDigit (t.second.tdiv 10), asciiDigit (t.second.tmod 10)] := by
  have htext : ascii "UIUC 0000-00-00 DDD 00:00:00" =
      [0x55#8, 0x49#8, 0x55#8, 0x43#8, 0x20#8, 0x30#8, 0x30#8, 0x30#8, 0x30#8, 0x2D#8, 0x30#8,
        0x30#8, 0x2D#8, 0x30#8, 0x30#8, 0x20#8, 0x44#8, 0x44#8, 0x44#8, 0x20#8, 0x30#8, 0x30#8,
        0x3A#8, 0x30#8, 0x30#8, 0x3A#8, 0x30#8, 0x30#8] := by
    decide
  simp only [displayBuf, htext, List.set_cons_succ, List.set_cons_zero]

theorem length_displayBuf (t : Time) (letters : List Byte) :
    (displayBuf t letters).length = 28 := by
  rw [displayBuf_eq]
  rfl

theorem displayed_iff {video : Buffer} :
    Displayed c video text ↔
      ∃ letters, weekLetters (gettime c).1.week = some letters ∧
        text = displayBuf (gettime c).1 letters := by
  -- whatever the letters are, the 28 characters are read off as they were written
  have hshown : ∀ letters, shownText (showBuf (displayBuf (gettime c).1 letters) video 28) =
      displayBuf (gettime c).1 letters := by
    intro letters
    refine List.ext_getElem (by simp [shownText, length_displayBuf]) fun i hi hi' => ?_
    rw [length_displayBuf] at hi'
    have hlt : i < (displayBuf (gettime c).1 letters).length := by rwa [length_displayBuf]
    simp only [shownText, List.getElem_map, List.getElem_range]
    rw [showBuf_apply, if_pos hi',
      List.getD_eq_getElem?_getD, List.getElem?_eq_getElem hlt, Option.getD_some]
  rw [Displayed, displayTime]
  cases hweek : weekLetters (gettime c).1.week with
  | none => simp
  | some letters =>
    simp only [Except.ok.injEq, exists_eq_left', Option.some.injEq, hshown]
    exact eq_comm

/-! ## Digits -/

/-- A field of two places. -/
theorem map_twoPlaces (hn : n < 100) :
    [asciiDigit ((n : ℤ).tdiv 10), asciiDigit ((n : ℤ).tmod 10)].map BitVec.toNat =
      (padded 10 2 n).map (48 + ·) := by
  -- the divisions are those of integers, so the hundred cases are looked at
  have htable : ∀ n : Fin 100,
      [asciiDigit ((n.val : ℤ).tdiv 10), asciiDigit ((n.val : ℤ).tmod 10)].map BitVec.toNat =
        (padded 10 2 n.val).map (48 + ·) := by
    decide +kernel
  exact htable ⟨n, hn⟩

/-- The year, in four places. -/
theorem map_fourPlaces (hn : 2000 ≤ n ∧ n ≤ 2099) :
    [asciiDigit ((n : ℤ).tdiv 1000), asciiDigit (((n : ℤ).tmod 1000).tdiv 100),
        asciiDigit ((((n : ℤ).tmod 1000).tmod 100).tdiv 10),
        asciiDigit ((((n : ℤ).tmod 1000).tmod 100).tmod 10)].map BitVec.toNat =
      (padded 10 4 n).map (48 + ·) := by
  have htable : ∀ k : Fin 100, let y : ℕ := 2000 + k.val
      [asciiDigit ((y : ℤ).tdiv 1000), asciiDigit (((y : ℤ).tmod 1000).tdiv 100),
          asciiDigit ((((y : ℤ).tmod 1000).tmod 100).tdiv 10),
          asciiDigit ((((y : ℤ).tmod 1000).tmod 100).tmod 10)].map BitVec.toNat =
        (padded 10 4 y).map (48 + ·) := by
    decide +kernel
  obtain ⟨k, rfl⟩ := Nat.exists_eq_add_of_le hn.1
  exact htable ⟨k, by omega⟩

/-- The hour that is printed for an hour of the day. -/
def shownHour (hour : ℕ) : ℕ := if hour = 0 then 23 else hour - 1

/-- Ten and twenty have no last digit that one could be taken from. -/
theorem map_hourDigits (hn : n < 24) (hten : n ≠ 10) (htwenty : n ≠ 20) :
    [(hourDigits n).1, (hourDigits n).2].map BitVec.toNat =
      (padded 10 2 (shownHour n)).map (48 + ·) := by
  have htable : ∀ n : Fin 24, n ≠ 10 → n ≠ 20 →
      [(hourDigits n.val).1, (hourDigits n.val).2].map BitVec.toNat =
        (padded 10 2 (shownHour n.val)).map (48 + ·) := by
    decide +kernel
  exact htable ⟨n, hn⟩ (fun h => hten (congrArg Fin.val h)) fun h => htwenty (congrArg Fin.val h)

/-! ## Stamps on the screen -/

/-- The fields of the text that is shown, with a separator behind each. -/
def layout : List (ℕ × List ℕ) :=
  [(4, [0x2D]), (2, [0x2D]), (2, []), (2, [0x3A]), (2, [0x3A]), (2, [])]

/-- The stamp that is shown for a stamp. -/
def shownStamp (s : Stamp) : Stamp := { s with hour := shownHour s.hour }

/-- Ten and twenty o'clock are shown with a `/` for the second digit. -/
structure Printable (s : Stamp) : Prop where
  valid : s.Valid
  year : 2000 ≤ s.date.year ∧ s.date.year ≤ 2099
  ten : s.hour ≠ 10
  twenty : s.hour ≠ 20

theorem Printable.bounds (h : Printable s) :
    s.date.month < 100 ∧ s.date.day < 100 ∧ s.hour < 24 ∧ s.minute < 100 ∧ s.second < 100 ∧
      shownHour s.hour < 24 := by
  have hlast := monthLength_le s.date.year s.date.month
  have hday := h.valid.date.day.2
  have hmonth := h.valid.date.month.2
  have hhour := h.valid.hour
  have hminute := h.valid.minute
  have hsecond := h.valid.second
  rw [shownHour]
  split_ifs <;> omega

theorem isField_of_map {i w v : ℕ} (hv : v < 10 ^ w)
    (h : ((text.drop i).take w).map BitVec.toNat = (padded 10 w v).map (48 + ·)) :
    IsField text i w v :=
  ⟨padded 10 w v, isPadded_padded (by decide) hv, h⟩

/-- The text of a stamp shows it, but for the hour. -/
theorem Printable.shows (h : Printable s) (letters : List Byte) :
    ShowsTime (displayBuf (timeOf s) letters) s.date (shownHour s.hour) s.minute s.second := by
  obtain ⟨hmonth, hday, hhour, hminute, hsecond, hshown⟩ := h.bounds
  have hyear := h.year.2
  rw [displayBuf_eq]
  constructor
  · exact h.valid.date
  · exact ⟨hshown, h.valid.minute, h.valid.second⟩
  · exact isField_of_map (by omega) (map_fourPlaces h.year)
  · exact isField_of_map hmonth (map_twoPlaces hmonth)
  · exact isField_of_map hday (map_twoPlaces hday)
  · exact isField_of_map (by omega) (map_hourDigits hhour h.ten h.twenty)
  · exact isField_of_map hminute (map_twoPlaces hminute)
  · exact isField_of_map hsecond (map_twoPlaces hsecond)

theorem Printable.dateTime_eq (h : Printable s) (letters : List Byte) :
    dateTime (displayBuf (timeOf s) letters) =
      fieldsText 10 (48 + ·) layout (shownStamp s).key := by
  obtain ⟨hmonth, hday, hhour, hminute, hsecond, -⟩ := h.bounds
  have hyear := map_fourPlaces h.year
  have hmonth' := map_twoPlaces hmonth
  have hday' := map_twoPlaces hday
  have hhour' := map_hourDigits hhour h.ten h.twenty
  have hminute' := map_twoPlaces hminute
  have hsecond' := map_twoPlaces hsecond
  simp only [layout, fieldsText, Stamp.key, shownStamp, ← hyear, ← hmonth', ← hday', ← hhour',
    ← hminute', ← hsecond']
  rw [displayBuf_eq]
  rfl

/-- The two characters of a field. -/
theorem IsField.two {i v : ℕ} {a b : Byte} (h : IsField text i 2 v)
    (htext : (text.drop i).take 2 = [a, b]) :
    ∃ x y, a.toNat = 48 + x ∧ b.toNat = 48 + y ∧ v = 10 * x + y := by
  obtain ⟨ds, hds, hmap⟩ := h
  obtain ⟨x, y, rfl⟩ := List.length_eq_two.mp hds.length
  rw [htext, List.map_cons, List.map_cons, List.map_nil, List.map_cons, List.map_cons,
    List.map_nil, List.cons.injEq, List.cons.injEq] at hmap
  have hvalue := hds.value
  rw [value_cons, value_cons] at hvalue
  refine ⟨x, y, hmap.1, hmap.2.1, ?_⟩
  simp only [value, List.length_cons, List.length_nil, List.reverse_nil, Nat.ofDigits_nil] at hvalue
  omega

/-- Behind the first digit of ten and twenty is a `/`. -/
theorem not_wellFormed_hour (hour : t.hour = 10 ∨ t.hour = 20) (letters : List Byte) :
    ¬ WellFormed (displayBuf t letters) := by
  rintro ⟨d, hour', minute, second, hshows⟩
  have hfield := hshows.hour
  rw [displayBuf_eq] at hfield
  obtain ⟨x, y, -, hy, -⟩ := hfield.two rfl
  have hslash : (hourDigits t.hour).2 = 0x2F#8 := by
    rcases hour with h | h <;> rw [h] <;> decide
  have hval : (0x2F#8).toNat = 47 := rfl
  rw [hslash, hval] at hy
  omega

/-- There is no day 0. -/
theorem not_wellFormed_day (hday : t.day = 0) (letters : List Byte) :
    ¬ WellFormed (displayBuf t letters) := by
  rintro ⟨d, hour, minute, second, hshows⟩
  have hfield := hshows.day
  rw [displayBuf_eq] at hfield
  obtain ⟨x, y, hx, hy, hvalue⟩ := hfield.two rfl
  -- both digits are zero, and every date has a day
  have hpos := hshows.date.day.1
  have hzero : (asciiDigit (t.day.tdiv 10)).toNat = 48 := by
    rw [hday]
    decide
  have hzero' : (asciiDigit (t.day.tmod 10)).toNat = 48 := by
    rw [hday]
    decide
  omega

/-! ## Two instants -/

/-- The date five hours earlier. -/
def cstDate (s : Stamp) : Date := if 5 ≤ s.hour then s.date else s.date.prevDay

/-- The instant has a well-formed text: the hour in CST is neither ten nor twenty, and no day before
the first of a month is looked for. -/
structure Readable (s : Stamp) : Prop where
  ten : s.hour ≠ 15
  twenty : s.hour ≠ 1
  day : 5 ≤ s.hour ∨ s.date.day ≠ 1

/-- The stamp that `gettime` yields. -/
theorem cst_stamp (hs : s.Valid) (hyear : 2000 ≤ s.date.year ∧ s.date.year ≤ 2099)
    (hregs : HoldsStamp c s) (hday : 5 ≤ s.hour ∨ s.date.day ≠ 1) :
    ∃ s', (gettime c).1 = timeOf s' ∧ s'.Earlier (3600 * 5) s ∧ s'.date = cstDate s ∧
      s'.hour = if 5 ≤ s.hour then s.hour - 5 else s.hour + 24 - 5 := by
  rw [gettime_eq hs hyear hregs, cstDate]
  by_cases hhour : 5 ≤ s.hour
  · -- the same date
    rw [if_pos hhour, if_pos hhour]
    exact ⟨_, toCst_hours hhour, hs.earlier_hours hhour, rfl, rfl⟩
  · -- the day before, which is in the same month
    rw [if_neg hhour, if_neg hhour]
    exact ⟨_, toCst_prevDay hs (by omega) (hday.resolve_left hhour),
      hs.earlier_prevDay (by omega) (by omega) (by decide), rfl, rfl⟩

/-- Before midnight in CST the hour is moved up by one, and so is every hour of the day. -/
theorem shownStamp_key_lt_iff {a b : Stamp} (hb : b.hour < 24) (hlt : a.key < b.key) :
    (shownStamp a).key < (shownStamp b).key ↔ (a.hour = 0 → a.date = b.date → b.hour = 0) := by
  simp only [Stamp.key, shownStamp, shownHour, List.cons_lt_cons_iff, List.not_lt_nil, and_false,
    or_false, Date.ext_iff] at hlt ⊢
  split_ifs <;> omega

theorem exists_weekLetters (hs : s.Valid) :
    ∃ letters, weekLetters (timeOf s).week = some letters := by
  obtain ⟨hfirst, hlast⟩ := hs.weekday
  rw [timeOf]
  generalize s.weekday = week at hfirst hlast
  interval_cases week <;> exact ⟨_, rfl⟩

/-- A text is well-formed only for a readable instant. -/
theorem readable_of_wellFormed (hs : s.Valid) (hyear : 2000 ≤ s.date.year ∧ s.date.year ≤ 2099)
    (hregs : HoldsStamp c s) (hwf : WellFormed (displayBuf (gettime c).1 letters)) :
    Readable s := by
  have hday : 5 ≤ s.hour ∨ s.date.day ≠ 1 := by
    -- the day would be 0
    by_contra hborrow
    obtain ⟨hhour, hfirst⟩ := not_or.mp hborrow
    refine not_wellFormed_day ?_ letters hwf
    rw [gettime_eq hs hyear hregs]
    exact toCst_first (by omega) (not_not.mp hfirst)
  obtain ⟨s', hget, -, -, hhour⟩ := cst_stamp hs hyear hregs hday
  -- the hours of day that have no text
  have hbad : ¬ (s'.hour = 10 ∨ s'.hour = 20) := by
    intro h
    refine not_wellFormed_hour ?_ letters hwf
    rw [hget]
    change (s'.hour : ℤ) = 10 ∨ (s'.hour : ℤ) = 20
    exact_mod_cast h
  refine ⟨fun h => hbad ?_, fun h => hbad ?_, hday⟩ <;> rw [hhour, h] <;> decide

theorem Readable.cst_printable (h : Readable s) (hs : s.Valid)
    (hyear : 2000 ≤ s.date.year ∧ s.date.year ≤ 2099) (hregs : HoldsStamp c s) :
    ∃ s', (gettime c).1 = timeOf s' ∧ Printable s' ∧ s'.seconds + 3600 * 5 = s.seconds ∧
      s'.date = cstDate s ∧ (s'.hour = 0 ↔ s.hour = 5) := by
  obtain ⟨s', hget, hearlier, hdate, hhour⟩ := cst_stamp hs hyear hregs h.day
  have hlt := hs.hour
  have hten := h.ten
  have htwenty := h.twenty
  refine ⟨s', hget, ⟨hearlier.valid, ?_, ?_, ?_⟩, hearlier.seconds, hdate, ?_⟩
  · -- the day before is in the same year
    have hsame : (cstDate s).year = s.date.year := by
      rw [cstDate]
      split_ifs with hfive
      · rfl
      · have hday := h.day.resolve_left hfive
        have hpos := hs.date.day.1
        rw [Date.prevDay, if_pos (by omega)]
    rwa [hdate, hsame]
  all_goals
    rw [hhour]
    split_ifs <;> omega

/-- What the two texts of the display are, and how they compare. -/
def DisplaysInOrder (c₁ c₂ : Cmos) (video : Buffer) : Prop :=
  ∃ text₁ text₂, Displayed c₁ video text₁ ∧ Displayed c₂ video text₂ ∧
    WellFormed text₁ ∧ WellFormed text₂ ∧ dateTime text₁ < dateTime text₂

/-- The displayed texts of readable instants are ordered like the stamps that they show. -/
theorem dateTime_lt_iff {a b : Stamp} (ha : Printable a) (hb : Printable b)
    (hlt : a.seconds < b.seconds) (letters letters' : List Byte) :
    dateTime (displayBuf (timeOf a) letters) < dateTime (displayBuf (timeOf b) letters') ↔
      (a.hour = 0 → a.date = b.date → b.hour = 0) := by
  have hfits : ∀ {s : Stamp}, Printable s →
      List.Forall₂ (fun f v => v < 10 ^ f.1) layout (shownStamp s).key := by
    intro s hs
    obtain ⟨hmonth, hday, -, hminute, hsecond, hshown⟩ := hs.bounds
    have hyear := hs.year.2
    have hhour : shownHour s.hour < 100 := by omega
    simp only [layout, Stamp.key, shownStamp, List.forall₂_cons, List.forall₂_nil_right_iff]
    exact ⟨by omega, hmonth, hday, hhour, hminute, hsecond, trivial⟩
  have hchar : StrictMono fun d : ℕ => 48 + d := fun d d' h => Nat.add_lt_add_left h 48
  rw [ha.dateTime_eq, hb.dateTime_eq, fieldsText_lt_iff (by decide) hchar (hfits ha) (hfits hb)]
  exact shownStamp_key_lt_iff hb.valid.hour ((ha.valid.key_lt_iff hb.valid).mpr hlt)

/-- Two instants are shown well and in order exactly if both are readable, and the first one is not
in the hour before the other ones of its day in CST. -/
theorem displaysInOrder_iff {c₁ c₂ : Cmos} {s₁ s₂ : Stamp} (hs₁ : s₁.Valid) (hs₂ : s₂.Valid)
    (hyear₁ : 2000 ≤ s₁.date.year ∧ s₁.date.year ≤ 2099)
    (hyear₂ : 2000 ≤ s₂.date.year ∧ s₂.date.year ≤ 2099) (hregs₁ : HoldsStamp c₁ s₁)
    (hregs₂ : HoldsStamp c₂ s₂) (hlt : s₁.seconds < s₂.seconds) (video : Buffer) :
    DisplaysInOrder c₁ c₂ video ↔
      Readable s₁ ∧ Readable s₂ ∧ (s₁.hour = 5 → cstDate s₂ = s₁.date → s₂.hour = 5) := by
  -- the order of the texts, once both are well-formed
  have hcompare : Readable s₁ → Readable s₂ → ∀ letters₁ letters₂,
      (dateTime (displayBuf (gettime c₁).1 letters₁) <
        dateTime (displayBuf (gettime c₂).1 letters₂) ↔
          (s₁.hour = 5 → cstDate s₂ = s₁.date → s₂.hour = 5)) := by
    intro hread₁ hread₂ letters₁ letters₂
    obtain ⟨a, hget₁, ha, hsec₁, hdate₁, hhour₁⟩ := hread₁.cst_printable hs₁ hyear₁ hregs₁
    obtain ⟨b, hget₂, hb, hsec₂, hdate₂, hhour₂⟩ := hread₂.cst_printable hs₂ hyear₂ hregs₂
    rw [hget₁, hget₂, dateTime_lt_iff ha hb (by omega), hhour₁, hhour₂, hdate₁, hdate₂]
    have hfive : s₁.hour = 5 → cstDate s₁ = s₁.date := fun h => if_pos h.ge
    exact forall_congr' fun h => by rw [hfive h, eq_comm]
  constructor
  · rintro ⟨text₁, text₂, hdisp₁, hdisp₂, hwf₁, hwf₂, horder⟩
    obtain ⟨letters₁, -, htext₁⟩ := displayed_iff.mp hdisp₁
    obtain ⟨letters₂, -, htext₂⟩ := displayed_iff.mp hdisp₂
    rw [htext₁] at hwf₁ horder
    rw [htext₂] at hwf₂ horder
    have hread₁ := readable_of_wellFormed hs₁ hyear₁ hregs₁ hwf₁
    have hread₂ := readable_of_wellFormed hs₂ hyear₂ hregs₂ hwf₂
    exact ⟨hread₁, hread₂, (hcompare hread₁ hread₂ _ _).mp horder⟩
  · rintro ⟨hread₁, hread₂, hcond⟩
    obtain ⟨a, hget₁, ha, -, -, -⟩ := hread₁.cst_printable hs₁ hyear₁ hregs₁
    obtain ⟨b, hget₂, hb, -, -, -⟩ := hread₂.cst_printable hs₂ hyear₂ hregs₂
    obtain ⟨letters₁, hletters₁⟩ := exists_weekLetters ha.valid
    obtain ⟨letters₂, hletters₂⟩ := exists_weekLetters hb.valid
    rw [← hget₁] at hletters₁
    rw [← hget₂] at hletters₂
    refine ⟨_, _, displayed_iff.mpr ⟨letters₁, hletters₁, rfl⟩,
      displayed_iff.mpr ⟨letters₂, hletters₂, rfl⟩, ?_, ?_, (hcompare hread₁ hread₂ _ _).mpr hcond⟩
    · rw [hget₁]
      exact ⟨_, _, _, _, ha.shows letters₁⟩
    · rw [hget₂]
      exact ⟨_, _, _, _, hb.shows letters₂⟩

end

/-- Noon of the second of April 2001, and one minute later. -/
theorem displaysInOrder_noon :
    DisplaysInOrder (clockAt ⟨⟨2001, 4, 2⟩, 2, 12, 0, 0⟩) (clockAt ⟨⟨2001, 4, 2⟩, 2, 12, 1, 0⟩)
      fun _ => 0#8 := by
  have hvalid₁ : Stamp.Valid ⟨⟨2001, 4, 2⟩, 2, 12, 0, 0⟩ :=
    ⟨⟨by decide, by decide⟩, by decide, by decide, by decide, by decide⟩
  have hvalid₂ : Stamp.Valid ⟨⟨2001, 4, 2⟩, 2, 12, 1, 0⟩ :=
    ⟨⟨by decide, by decide⟩, by decide, by decide, by decide, by decide⟩
  apply (displaysInOrder_iff hvalid₁ hvalid₂ (by decide) (by decide) (holdsStamp_clockAt _)
    (holdsStamp_clockAt _) ((hvalid₁.key_lt_iff hvalid₂).mp (by decide)) _).mpr
  refine ⟨?_, ?_, fun h => absurd h (by decide)⟩
  · exact ⟨by decide, by decide, by decide⟩
  · exact ⟨by decide, by decide, by decide⟩

/-- Half past midnight in CST is shown as half past eleven in the evening, and one hour later the
clock is at half past midnight of the same date. -/
theorem not_displaysInOrder_midnight :
    ¬ DisplaysInOrder (clockAt ⟨⟨2001, 4, 2⟩, 2, 5, 30, 0⟩) (clockAt ⟨⟨2001, 4, 2⟩, 2, 6, 30, 0⟩)
      fun _ => 0#8 := by
  rintro ⟨text₁, text₂, hdisp₁, hdisp₂, -, -, horder⟩
  obtain ⟨letters₁, -, htext₁⟩ := displayed_iff.mp hdisp₁
  obtain ⟨letters₂, -, htext₂⟩ := displayed_iff.mp hdisp₂
  rw [htext₁, htext₂] at horder
  have hvalid : ∀ hour < 24, Stamp.Valid ⟨⟨2001, 4, 2⟩, 2, hour, 30, 0⟩ := fun hour h =>
    ⟨⟨by simp, by simp [monthLength]⟩, by simp, h, by simp, by simp⟩
  obtain ⟨a, hget₁, ha, hsec₁, hdate₁, hhour₁⟩ := Readable.cst_printable
    ⟨by decide, by decide, by decide⟩ (hvalid 5 (by decide)) (by decide) (holdsStamp_clockAt _)
  obtain ⟨b, hget₂, hb, hsec₂, hdate₂, hhour₂⟩ := Readable.cst_printable
    ⟨by decide, by decide, by decide⟩ (hvalid 6 (by decide)) (by decide) (holdsStamp_clockAt _)
  have hlt := ((hvalid 5 (by decide)).key_lt_iff (hvalid 6 (by decide))).mp (by decide)
  rw [← hsec₁, ← hsec₂] at hlt
  -- the order would need the later hour to be shown as 23 too
  rw [hget₁, hget₂, dateTime_lt_iff ha hb (Nat.lt_of_add_lt_add_right hlt)] at horder
  have hsame : a.date = b.date := by
    rw [hdate₁, hdate₂]
    rfl
  exact absurd (hhour₂.mp (horder (hhour₁.mpr rfl) hsame)) (by decide)

end Ece391
