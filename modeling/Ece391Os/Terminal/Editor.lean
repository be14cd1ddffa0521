import Ece391Os.Terminal.Line

/-!
# A line of input

What `terminal_read` is for, and how far the line buffer serves it.

* `Line` is a line being typed: characters, Backspace, and the four events that end it. Keys that
  come after the end do not change it.
* `Tracks n line l`: the buffer `l` holds the line, of which the reader has still to blank the cells
  from `n` on.
* `Tracks.press`: a key keeps buffer and line together, unless it is one of those `Admits` excludes.
-/

namespace Ece391

/-! ## The editor -/

/-- What ends a line. -/
inductive LineEnd
  | enter
  | full
  | ctrlL
  | ctrlC
  deriving DecidableEq

/-- A line of input: what has been typed, and how the line has ended. -/
structure Line where
  typed : List Byte
  ended : Option LineEnd
  deriving DecidableEq

namespace Line

/-- An empty line. -/
def start : Line := ⟨[], none⟩

/-- A character behind the line. -/
def push (c : Byte) (line : Line) : Line :=
  if line.typed.length + 1 = 128 then ⟨line.typed ++ [c], some .full⟩
  else { line with typed := line.typed ++ [c] }

/-- An input byte. -/
def input (c : Byte) (line : Line) : Line :=
  if c = 0#8 then line
  else if c = 0x0A#8 then { line with ended := some .enter }
  else if c = 0x08#8 then { line with typed := line.typed.dropLast }
  else line.push c

/-- A key; `root` says whether a root shell runs, which Ctrl+C does not halt. -/
def press (action : KeyAction) (root : Bool) (line : Line) : Line :=
  if line.ended.isSome then line
  else
    match action with
    | .clearLine => ⟨[], some .ctrlL⟩
    | .interrupt => if root then { line with ended := some .ctrlC } else line
    | .char c => line.input c
    | .null | .switch _ => line

end Line

/-! ## The buffer of a line -/

/-- The line is of interest: it is open or has been ended by Enter. -/
def Line.Kept (line : Line) : Prop := line.ended = none ∨ line.ended = some .enter

/-- The buffer holds the line. The cells from `n` on are still to be blanked, so the line may only
have blanks there. -/
structure Tracks (n : ℕ) (line : Line) (l : LineBuffer) : Prop where
  readOn : l.readOn = line.ended.isNone
  cnt : line.Kept → l.cnt = line.typed.length
  short : line.Kept → line.typed.length < 128
  buf : line.Kept → ∀ j (hj : j < line.typed.length), l.buf j = line.typed[j]
  blank : line.Kept → ∀ j (hj : j < line.typed.length), n ≤ j → line.typed[j] = 0x20#8

/-- A key does not break the line being read, where the cells from `n` on are still to be
blanked. -/
def Admits (n : ℕ) (line : Line) (l : LineBuffer) : KeyAction → Prop
  | .clearLine => line.ended = some .enter → l.cnt = 0
  | .char c => line.ended = none → c ≠ 255#8 ∧
      (c = 0#8 ∨ c = 0x0A#8 ∨ c = 0x08#8 ∨ c = 0x20#8 ∨ l.cnt < n)
  | .null | .interrupt | .switch _ => True

instance (line : Line) : Decidable line.Kept := inferInstanceAs (Decidable (_ ∨ _))

instance Admits.decidable (n : ℕ) (line : Line) (l : LineBuffer) :
    ∀ action, Decidable (Admits n line l action)
  | .clearLine => inferInstanceAs (Decidable (_ → _))
  | .char _ => inferInstanceAs (Decidable (_ → _))
  | .null | .interrupt | .switch _ => isTrue trivial

namespace Tracks

variable {n : ℕ} {line : Line} {l : LineBuffer}

/-- A new line in a buffer with the counter reset. -/
theorem start (hcnt : l.cnt = 0) (hread : l.readOn = true) : Tracks n Line.start l where
  readOn := hread
  cnt _ := hcnt
  short _ := by decide
  buf _ j hj := (Nat.not_lt_zero j hj).elim
  blank _ j hj := (Nat.not_lt_zero j hj).elim

/-- The reader blanks the next cell. -/
theorem clearBuf (h : Tracks n line l) :
    Tracks (n + 1) line { l with buf := Function.update l.buf n 0x20#8 } where
  readOn := h.readOn
  cnt := h.cnt
  short := h.short
  buf hkept j hj := by
    by_cases hjn : j = n
    · subst hjn
      rw [h.blank hkept j hj le_rfl]
      exact Function.update_self _ _ _
    · rw [← h.buf hkept j hj]
      exact Function.update_of_ne (by omega) _ _
  blank hkept j hj hn := h.blank hkept j hj (by omega)

/-- An open line goes on with the read flag set. -/
theorem readOn_of_open (h : Tracks n line l) (hopen : line.ended = none) : l.readOn = true := by
  rw [h.readOn, hopen]
  rfl

/-- Once the line has ended, an input byte does nothing. -/
theorem input_of_ended (h : Tracks n line l) (hended : line.ended.isSome) (c : Byte) :
    l.input c = l := by
  have hoff : l.readOn = false := by
    rw [h.readOn]
    simpa using hended
  rw [LineBuffer.input, if_neg (by simp [hoff] : ¬ (c ≠ 0#8 ∧ l.readOn = true)), ← hoff, ite_self]

/-- A line of interest does not fill the buffer. -/
theorem full_eq (h : Tracks n line l) (hkept : line.Kept) : l.full = l := by
  have hcnt := h.cnt hkept
  have hshort := h.short hkept
  rw [LineBuffer.full, if_neg]
  rw [bufSize]
  omega

theorem enter (h : Tracks n line l) (hopen : line.ended = none) :
    Tracks n { line with ended := some .enter } { l with readOn := false } where
  readOn := rfl
  cnt _ := h.cnt (Or.inl hopen)
  short _ := h.short (Or.inl hopen)
  buf _ := h.buf (Or.inl hopen)
  blank _ := h.blank (Or.inl hopen)

theorem backspace (h : Tracks n line l) (hopen : line.ended = none) :
    Tracks n { line with typed := line.typed.dropLast } l.pop := by
  have hcnt := h.cnt (Or.inl hopen)
  have hshort := h.short (Or.inl hopen)
  by_cases hnil : line.typed = []
  · -- an empty line stays empty
    have hzero : l.cnt = 0 := by rw [hcnt, hnil]; rfl
    rw [LineBuffer.pop, if_pos hzero, hnil, List.dropLast_nil, ← hnil]
    exact h
  · have hpos : 0 < line.typed.length := List.length_pos_iff.mpr hnil
    have hne : l.cnt ≠ 0 := by omega
    rw [LineBuffer.pop, if_neg hne]
    refine ⟨h.readOn, fun _ => ?_, fun _ => ?_, fun _ j hj => ?_, fun _ j hj hn => ?_⟩
    · simp only [List.length_dropLast]
      omega
    · simp only [List.length_dropLast]
      omega
    · simp only [List.length_dropLast] at hj
      rw [List.getElem_dropLast, ← h.buf (Or.inl hopen) j (by omega)]
      exact Function.update_of_ne (by omega) _ _
    · simp only [List.length_dropLast] at hj
      rw [List.getElem_dropLast]
      exact h.blank (Or.inl hopen) j (by omega) hn

theorem push {c : Byte} (h : Tracks n line l) (hopen : line.ended = none)
    (hc : c = 0x20#8 ∨ l.cnt < n) : Tracks n (line.push c) (l.push c).full := by
  have hcnt := h.cnt (Or.inl hopen)
  have hshort := h.short (Or.inl hopen)
  have hroom : l.cnt ≤ bufSize - 1 := by
    rw [bufSize]
    omega
  rw [LineBuffer.push, if_pos hroom, LineBuffer.full, Line.push]
  by_cases hlast : line.typed.length + 1 = 128
  · -- the 128th character ends the line
    have hfull : l.cnt + 1 = bufSize := by
      rw [bufSize]
      omega
    rw [if_pos hlast, if_pos hfull]
    have hgone : ¬ Line.Kept ⟨line.typed ++ [c], some .full⟩ := by simp [Line.Kept]
    exact ⟨rfl, fun hkept => absurd hkept hgone, fun hkept => absurd hkept hgone,
      fun hkept => absurd hkept hgone, fun hkept => absurd hkept hgone⟩
  · have hfull : l.cnt + 1 ≠ bufSize := by
      rw [bufSize]
      omega
    rw [if_neg hlast, if_neg hfull]
    refine ⟨h.readOn, fun _ => ?_, fun _ => ?_, fun _ j hj => ?_, fun _ j hj hn => ?_⟩
    · simp [hcnt]
    · simp only [List.length_append, List.length_singleton]
      omega
    · rw [hcnt]
      by_cases hj' : j < line.typed.length
      · rw [List.getElem_append_left hj', ← h.buf (Or.inl hopen) j hj']
        exact Function.update_of_ne (by omega) _ _
      · obtain rfl : j = line.typed.length := by
          simp only [List.length_append, List.length_singleton] at hj
          omega
        rw [List.getElem_concat_length rfl]
        exact Function.update_self _ _ _
    · by_cases hj' : j < line.typed.length
      · rw [List.getElem_append_left hj']
        exact h.blank (Or.inl hopen) j hj' hn
      · obtain rfl : j = line.typed.length := by
          simp only [List.length_append, List.length_singleton] at hj
          omega
        rw [List.getElem_concat_length rfl]
        exact hc.resolve_right (by omega)

/-- An input byte on an open line. -/
theorem input {c : Byte} (h : Tracks n line l) (hopen : line.ended = none) (h255 : c ≠ 255#8)
    (hc : c = 0#8 ∨ c = 0x0A#8 ∨ c = 0x08#8 ∨ c = 0x20#8 ∨ l.cnt < n) :
    Tracks n (line.input c) (l.input c) := by
  rw [Line.input, LineBuffer.input, if_neg h255]
  by_cases hzero : c = 0#8
  · rw [if_pos hzero, if_neg fun hread => hread.1 hzero]
    exact h
  · have hread : c ≠ 0#8 ∧ l.readOn = true := ⟨hzero, h.readOn_of_open hopen⟩
    rw [if_neg hzero, if_pos hread]
    by_cases henter : c = 0x0A#8
    · rw [if_pos henter, if_pos henter, (h.enter hopen).full_eq (Or.inr rfl)]
      exact h.enter hopen
    · rw [if_neg henter, if_neg henter]
      by_cases hback : c = 0x08#8
      · rw [if_pos hback, if_pos hback, (h.backspace hopen).full_eq (Or.inl hopen)]
        exact h.backspace hopen
      · rw [if_neg hback, if_neg hback]
        apply h.push hopen
        rcases hc with hc | hc | hc | hc
        · exact absurd hc hzero
        · exact absurd hc henter
        · exact absurd hc hback
        · exact hc

/-- A line that is over, but not by Enter: only the flag matters. -/
theorem of_not_kept (hgone : ¬ line.Kept) (hread : l.readOn = line.ended.isNone) :
    Tracks n line l where
  readOn := hread
  cnt hkept := absurd hkept hgone
  short hkept := absurd hkept hgone
  buf hkept := absurd hkept hgone
  blank hkept := absurd hkept hgone

/-- A key that is admitted keeps buffer and line together. -/
theorem press {action : KeyAction} (h : Tracks n line l) (hallowed : Admits n line l action)
    (root : Bool) : Tracks n (line.press action root) (l.press action root) := by
  rw [Line.press.eq_def]
  cases hended : line.ended with
  | none =>
    rw [if_neg (by simp)]
    cases action with
    | null | switch => exact h
    | clearLine => exact of_not_kept (by simp [Line.Kept]) rfl
    | interrupt =>
      cases root with
      | false => exact h
      | true => exact of_not_kept (by simp [Line.Kept]) rfl
    | char c =>
      obtain ⟨h255, hc⟩ := hallowed hended
      exact h.input hended h255 hc
  | some e =>
    rw [if_pos Option.isSome_some]
    cases action with
    | null | switch => exact h
    | clearLine =>
      by_cases henter : e = .enter
      · -- the line is empty
        subst henter
        have hkept : line.Kept := Or.inr hended
        have hnil : line.typed.length = 0 := by
          have hcnt := h.cnt hkept
          rw [hallowed hended] at hcnt
          omega
        refine ⟨by rw [hended]; rfl, fun _ => by rw [hnil]; rfl, fun _ => by rw [hnil]; decide,
          fun _ j hj => ?_, fun _ j hj => ?_⟩
        · exact absurd hj (by omega)
        · exact absurd hj (by omega)
      · refine of_not_kept ?_ (by rw [hended]; rfl)
        simp [Line.Kept, hended, henter]
    | interrupt =>
      cases root with
      | false => exact h
      | true => exact ⟨by rw [hended]; rfl, h.cnt, h.short, h.buf, h.blank⟩
    | char c =>
      rw [LineBuffer.press, h.input_of_ended (by rw [hended]; rfl)]
      exact h

end Tracks

end Ece391
