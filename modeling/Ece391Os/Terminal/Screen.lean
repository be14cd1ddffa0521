import Ece391Os.Kernel.State
import Ece391Os.Lib.Transition
import Mathlib.Data.Nat.ModEq

/-!
# Printing to a terminal

`scroll_screen` of `terminal.c` and `putc`, `puts` and the clearing loops of `lib.c`.

Video memory is reached through two mappings. The fixed address `VIDEO` (0xB8000) is mapped by the
running process's page table to the page `P` of one terminal; the address `VIDEO_FOR_READ` is mapped
for every process to the pages of all three terminals. Only these pages are present, so a write
that leaves its page is a page fault, which is `none`: `page_fault` never returns.

`putc` is defined twice. `Console.putc` is the code: it goes through the terminal's cursor and the
mapped page. `Screen.putc` is the same function on one terminal's cursor and page alone, and
`Console.putc_eq` says that the code is this function on its own screen and nothing else.
-/

namespace Ece391

/-- `NUM_COLS` -/
def numCols : ℕ := 80
/-- `NUM_ROWS` -/
def numRows : ℕ := 24
/-- `ATTRIB` -/
def attrib : Byte := 0x7#8

/-! ## The text page -/

/-- Row `i` of the loop of `scroll_screen`: the characters of row `i` move to row `i - 1`. -/
def scrollRow (p : Page) (i : ℕ) : Page :=
  copyCells (fun j => ((i - 1) * numCols + j) * 2) (fun j => (i * numCols + j) * 2) numCols p

/-- `scroll_screen` on the page mapped at `VIDEO`. After the loops over the rows `i` is 24. -/
def scrollPage (p : Page) : Page :=
  fillCells (fun j => ((numRows - 1) * numCols + j) * 2) 0#8 numCols
    ((List.range' 1 (numRows - 1)).foldl scrollRow p)

/-- The loop of `clear`, `clear_key` and `execute` that blanks the text rows of a page. -/
def clearPage (p : Page) : Page :=
  (List.range (numRows * numCols)).foldl
    (fun p i => Function.update (Function.update p (2 * i) 0x20#8) (2 * i + 1) attrib) p

theorem scrollRow_apply (p : Page) (i o : ℕ) :
    scrollRow p (i + 1) o =
      if o % 2 = 0 ∧ 160 * i ≤ o ∧ o < 160 * (i + 1) then p (o + 160) else p o := by
  rw [scrollRow, numCols]
  by_cases h : o % 2 = 0 ∧ 160 * i ≤ o ∧ o < 160 * (i + 1)
  · obtain ⟨j, hj, rfl⟩ : ∃ j < 80, o = ((i + 1 - 1) * 80 + j) * 2 :=
      ⟨o / 2 - i * 80, by omega, by omega⟩
    rw [if_pos h, copyCells_apply _ _ (fun a _ b _ hab => by omega)
      (fun a _ b _ hab => by omega) hj]
    congr 1
    omega
  · rw [if_neg h]
    exact copyCells_of_ne _ _ fun j hj hoj => h (by omega)

theorem scrollRows_apply (p : Page) (m o : ℕ) :
    (List.range' 1 m).foldl scrollRow p o =
      if o % 2 = 0 ∧ o < 160 * m then p (o + 160) else p o := by
  induction m generalizing o with
  | zero => simp
  | succ m ih =>
    rw [List.range'_1_concat, List.foldl_append, List.foldl_cons, List.foldl_nil,
      Nat.add_comm 1 m, scrollRow_apply, ih, ih]
    -- row `m + 1` is read before any loop has written to it
    split_ifs <;> first | rfl | omega

/-- Scrolling moves the characters of the rows up by one row, blanks the last row, and keeps every
attribute byte and everything behind the text rows. -/
theorem scrollPage_apply (p : Page) (o : ℕ) :
    scrollPage p o =
      if o % 2 = 0 ∧ o < 3680 then p (o + 160)
      else if o % 2 = 0 ∧ o < 3840 then 0#8 else p o := by
  rw [scrollPage, numCols, numRows]
  by_cases hlast : o % 2 = 0 ∧ 3680 ≤ o ∧ o < 3840
  · obtain ⟨j, hj, rfl⟩ : ∃ j < 80, o = ((24 - 1) * 80 + j) * 2 :=
      ⟨o / 2 - 1840, by omega, by omega⟩
    rw [fillCells_apply _ _ hj, if_neg (by omega), if_pos (by omega)]
  · rw [fillCells_of_ne _ _ fun j hj hoj => hlast (by omega), scrollRows_apply]
    split_ifs <;> first | rfl | omega

/-- Every text row but the last one takes the characters of the row below it, the last one is
blanked, and no other byte of the page changes. -/
structure ShiftsUp (p p' : Page) : Prop where
  rows : ∀ row < numRows - 1, ∀ col < numCols,
    p' (2 * (numCols * row + col)) = p (2 * (numCols * (row + 1) + col))
  last : ∀ col < numCols, p' (2 * (numCols * (numRows - 1) + col)) = 0#8
  attributes : ∀ o, o % 2 = 1 → p' o = p o
  behind : ∀ o, 2 * (numCols * numRows) ≤ o → p' o = p o

/-- `scroll_screen` shifts the text rows of any page up by one. -/
theorem scrollPage_shiftsUp (p : Page) : ShiftsUp p (scrollPage p) := by
  constructor
  · intro row hrow col hcol
    rw [numRows] at hrow
    rw [numCols] at hcol ⊢
    rw [scrollPage_apply, if_pos (by omega)]
    congr 1
    omega
  · intro col hcol
    rw [numCols] at hcol ⊢
    rw [numRows, scrollPage_apply, if_neg (by omega), if_pos (by omega)]
  · intro o hodd
    rw [scrollPage_apply, if_neg (by omega), if_neg (by omega)]
  · intro o hbehind
    rw [numCols, numRows] at hbehind
    rw [scrollPage_apply, if_neg (by omega), if_neg (by omega)]

/-- Clearing blanks the text rows and keeps everything behind them. -/
theorem clearPage_apply (p : Page) (o : ℕ) :
    clearPage p o = if o < 3840 then (if o % 2 = 0 then 0x20#8 else attrib) else p o := by
  have hloop : ∀ m, (List.range m).foldl
      (fun p i => Function.update (Function.update p (2 * i) 0x20#8) (2 * i + 1) attrib) p o =
        if o < 2 * m then (if o % 2 = 0 then 0x20#8 else attrib) else p o := by
    intro m
    induction m with
    | zero => simp
    | succ m ih =>
      rw [List.range_succ, List.foldl_append, List.foldl_cons, List.foldl_nil]
      by_cases hattr : o = 2 * m + 1
      · subst hattr
        rw [Function.update_self, if_pos (by omega), if_neg (by omega)]
      · rw [Function.update_of_ne hattr]
        by_cases hchar : o = 2 * m
        · subst hchar
          rw [Function.update_self, if_pos (by omega), if_pos (by omega)]
        · rw [Function.update_of_ne hchar, ih]
          split_ifs <;> first | rfl | omega
  rw [clearPage, hloop]
  rfl

/-! ## The console -/

namespace Console

/-- Assign the fields of one terminal. -/
def setTerm (con : Console) (t : TermId) (f : Term → Term) : Console :=
  { con with terms := Function.update con.terms t (f (con.terms t)) }

theorem terms_setTerm_self (con : Console) (t : TermId) (f : Term → Term) :
    (con.setTerm t f).terms t = f (con.terms t) := Function.update_self _ _ _

theorem terms_setTerm_of_ne (con : Console) {t t' : TermId} (f : Term → Term) (h : t' ≠ t) :
    (con.setTerm t f).terms t' = con.terms t' := Function.update_of_ne h _ _

/-- Store a byte at `VIDEO + off`, where `P` is the page mapped there. -/
def poke (con : Console) (P : ℕ) (off : ℤ) (b : Byte) : Option Console :=
  if 0 ≤ off ∧ off < 4096 then
    some { con with
      vram := Function.update con.vram P (Function.update (con.vram P) off.toNat b) }
  else none

/-- The pages present behind `VIDEO_FOR_READ`: entries 0xB8, 0xBA and 0xBC of the video table. -/
def videoTable (page : ℤ) : Option ℕ :=
  if page = 0xB8 ∨ page = 0xBA ∨ page = 0xBC then some page.toNat else none

/-- Store a byte at `VIDEO_FOR_READ + 0x2000*term + off`. -/
def pokeRead (con : Console) (t : TermId) (off : ℤ) (b : Byte) : Option Console :=
  (videoTable (0xB8 + 2 * t.val + off / 4096)).map fun page =>
    { con with
      vram := Function.update con.vram page
        (Function.update (con.vram page) (off % 4096).toNat b) }

/-- `scroll_screen`, where `P` is the page mapped at `VIDEO`. -/
def scrollScreen (con : Console) (P : ℕ) : Console :=
  { con with vram := Function.update con.vram P (scrollPage (con.vram P)) }

/-- `update_cursor`: the hardware cursor follows the cursor of the terminal on screen. -/
def updateCursor (con : Console) : Console :=
  let term := con.terms con.termOnScreen
  let position : BitVec 16 :=
    BitVec.ofInt 16 (term.screenY * numCols + term.screenX + con.termOnScreen.val * 4096)
  { con with
    crtc := Function.update (Function.update con.crtc 0x0F#8 (position.setWidth 8))
      0x0E#8 ((position >>> 8).setWidth 8) }

/-- `reset_cursor` -/
def resetCursor (con : Console) : Console :=
  con.setTerm con.termOnScreen fun term => { term with screenX := 0, screenY := 0 }

/-- The cursor of `t` moves to a new line, scrolling below the last row. -/
def putcNewline (con : Console) (t : TermId) (P : ℕ) : Console :=
  let con := con.setTerm t fun term => { term with screenY := term.screenY + 1 }
  let con :=
    if (con.terms t).screenY = numRows then
      (con.scrollScreen P).setTerm t fun term => { term with screenY := numRows - 1 }
    else con
  con.setTerm t fun term => { term with screenX := 0 }

/-- The cursor of `t` moves behind the character just stored, wrapping at the end of a row. -/
def putcAdvance (con : Console) (t : TermId) (P : ℕ) : Console :=
  let con := con.setTerm t fun term => { term with screenX := term.screenX + 1 }
  if (con.terms t).screenX = 80 then
    let con := con.setTerm t fun term => { term with screenX := 0, screenY := term.screenY + 1 }
    if (con.terms t).screenY = numRows then
      (con.scrollScreen P).setTerm t fun term => { term with screenY := numRows }
    else con
  else con

/-- The offset from `VIDEO` of the cell under the cursor of `t`. -/
def cursorCell (con : Console) (t : TermId) : ℤ :=
  2 * (numCols * (con.terms t).screenY + (con.terms t).screenX)

/-- `'\n'` and `'\r'` -/
def isNewline (c : Byte) : Bool := c == 0x0A#8 || c == 0x0D#8

/-- `putc`, where `t` is `curr_term` and `P` the page mapped at `VIDEO`. -/
def putc (con : Console) (t : TermId) (P : ℕ) (c : Byte) : Option Console :=
  if isNewline c then
    let con := con.putcNewline t P
    some (if con.termOnScreen = t then con.updateCursor else con)
  else do
    let cell := con.cursorCell t
    let con ← con.poke P cell c
    let con ← con.poke P (cell + 1) attrib
    let con := con.putcAdvance t P
    some (if con.termOnScreen = t then con.updateCursor else con)

/-- `putc` for every byte of a list: `puts`, the loop of `terminal_write`, and `printf` of a format
without conversions. -/
def puts (con : Console) (t : TermId) (P : ℕ) (s : List Byte) : Option Console :=
  Transition.exec (fun con c => putc con t P c) con s

end Console

/-! ## One terminal's screen -/

/-- What `putc` reads and writes of a terminal: its cursor and its page. -/
@[ext]
structure Screen where
  x : ℤ
  y : ℤ
  page : Page

namespace Screen

/-- `putc` of a newline on one screen. -/
def newline (s : Screen) : Screen :=
  if s.y + 1 = numRows then { x := 0, y := numRows - 1, page := scrollPage s.page }
  else { s with x := 0, y := s.y + 1 }

/-- The cursor behind the character just stored. -/
def advance (s : Screen) : Screen :=
  if s.x + 1 = 80 then
    if s.y + 1 = numRows then { x := 0, y := numRows, page := scrollPage s.page }
    else { s with x := 0, y := s.y + 1 }
  else { s with x := s.x + 1 }

/-- The offset of the cell under the cursor. -/
def cell (s : Screen) : ℤ := 2 * (numCols * s.y + s.x)

/-- The page with a character stored at an offset. -/
def store (s : Screen) (off : ℤ) (c : Byte) : Screen :=
  { s with page := Function.update (Function.update s.page off.toNat c) (off + 1).toNat attrib }

/-- `putc` on one screen; `none` when the character would leave the page. -/
def putc (s : Screen) (c : Byte) : Option Screen :=
  if Console.isNewline c then some s.newline
  else if 0 ≤ s.cell ∧ s.cell + 1 < 4096 then some (s.store s.cell c).advance
  else none

/-- A list of bytes on one screen. -/
def puts (s : Screen) (l : List Byte) : Option Screen := Transition.exec putc s l

section

variable {s s' : Screen} {c : Byte} {l : List Byte}

/-- Also where the screen scrolls, the cell under the cursor is the next one. -/
theorem cell_advance (s : Screen) : s.advance.cell = s.cell + 2 := by
  rw [advance]
  split_ifs with hx hy <;> simp only [cell, numCols, numRows] at * <;> omega

theorem cell_putc (hc : Console.isNewline c = false) (h : s.putc c = some s') :
    s'.cell = s.cell + 2 := by
  rw [putc, if_neg (by simp [hc])] at h
  split_ifs at h
  cases h
  exact cell_advance _

/-- Characters in a row fault exactly when the page does not hold all of them. -/
theorem puts_eq_none_iff (hl : ∀ c ∈ l, Console.isNewline c = false) (hne : l ≠ []) :
    s.puts l = none ↔ ¬ (0 ≤ s.cell ∧ s.cell + 2 * l.length ≤ 4096) := by
  -- the bytes need two cells each, and the cursor moves by two with each of them
  induction l generalizing s with
  | nil => exact absurd rfl hne
  | cons c l ih =>
    have hc := hl c List.mem_cons_self
    rw [puts, Transition.exec_cons]
    cases hs : s.putc c with
    | none =>
      -- the first byte is already outside of the page
      rw [putc, if_neg (by simp [hc])] at hs
      split_ifs at hs with hcell
      simp only [Option.bind_none, List.length_cons, true_iff]
      simp only [cell] at *
      omega
    | some s₁ =>
      have hcell := cell_putc hc hs
      have hin : 0 ≤ s.cell ∧ s.cell + 1 < 4096 := by
        rw [putc, if_neg (by simp [hc])] at hs
        by_contra hout
        rw [if_neg hout] at hs
        cases hs
      rw [Option.bind_some]
      -- the last byte fits; before it, the rest decides
      cases l with
      | nil =>
        simp only [Transition.exec_nil, reduceCtorEq, false_iff, not_not, List.length_cons,
          List.length_nil]
        simp only [cell] at *
        omega
      | cons c' l =>
        have hrest := ih (s := s₁) (fun c hc => hl c (List.mem_cons_of_mem _ hc)) (by simp)
        rw [puts] at hrest
        rw [hrest, hcell]
        simp only [List.length_cons]
        push_cast
        simp only [cell] at *
        omega

/-- A line faults exactly when the page does not hold its characters; the newline stores nothing. -/
theorem puts_line_eq_none_iff (hl : ∀ c ∈ l, Console.isNewline c = false) (hne : l ≠ []) :
    s.puts (l ++ [0x0A#8]) = none ↔ ¬ (0 ≤ s.cell ∧ s.cell + 2 * l.length ≤ 4096) := by
  rw [← puts_eq_none_iff hl hne, puts, Transition.exec_append]
  change (s.puts l).bind _ = none ↔ _
  cases s.puts l with
  | none => simp
  | some s₁ => simp [Transition.exec_cons, putc, Console.isNewline]

end

end Screen

namespace Console

variable {con con' con'' : Console} {t t' : TermId} {P : ℕ} {c : Byte} {l : List Byte}

/-- The screen of terminal `t` when its page is `P`. -/
def screenAt (con : Console) (t : TermId) (P : ℕ) : Screen :=
  ⟨(con.terms t).screenX, (con.terms t).screenY, con.vram P⟩

/-- Replace the screen of terminal `t` when its page is `P`. -/
def setScreenAt (con : Console) (t : TermId) (P : ℕ) (s : Screen) : Console :=
  { con with
    terms := Function.update con.terms t { con.terms t with screenX := s.x, screenY := s.y }
    vram := Function.update con.vram P s.page }

/-- The hardware cursor follows when `t` is on screen. -/
def refresh (con : Console) (t : TermId) : Console :=
  if con.termOnScreen = t then con.updateCursor else con

@[simp]
theorem screenAt_setScreenAt (con : Console) (t : TermId) (P : ℕ) (s : Screen) :
    (con.setScreenAt t P s).screenAt t P = s := by
  simp [screenAt, setScreenAt]

@[simp]
theorem setScreenAt_setScreenAt (con : Console) (t : TermId) (P : ℕ) (s s' : Screen) :
    (con.setScreenAt t P s).setScreenAt t P s' = con.setScreenAt t P s' := by
  simp [setScreenAt]

theorem putcNewline_eq (con : Console) (t : TermId) (P : ℕ) :
    con.putcNewline t P = con.setScreenAt t P (con.screenAt t P).newline := by
  by_cases h : (con.terms t).screenY + 1 = numRows <;>
    simp [putcNewline, setTerm, Screen.newline, screenAt, setScreenAt, scrollScreen, h]

theorem putcAdvance_eq (con : Console) (t : TermId) (P : ℕ) :
    con.putcAdvance t P = con.setScreenAt t P (con.screenAt t P).advance := by
  by_cases hx : (con.terms t).screenX + 1 = 80
  · by_cases hy : (con.terms t).screenY + 1 = numRows <;>
      simp [putcAdvance, setTerm, Screen.advance, screenAt, setScreenAt, scrollScreen, hx, hy]
  · simp [putcAdvance, setTerm, Screen.advance, screenAt, setScreenAt, hx]

/-- The two stores of `putc`: both bytes of the cell are on the page, or the first one outside it
faults. -/
theorem poke_poke_eq (con : Console) (t : TermId) (P : ℕ) (off : ℤ) (c : Byte) :
    ((con.poke P off c).bind fun con => con.poke P (off + 1) attrib) =
      if 0 ≤ off ∧ off + 1 < 4096 then
        some (con.setScreenAt t P ((con.screenAt t P).store off c))
      else none := by
  by_cases h : 0 ≤ off ∧ off + 1 < 4096
  · rw [if_pos h, poke, if_pos (by omega), Option.bind_some, poke, if_pos (by omega)]
    simp [setScreenAt, screenAt, Screen.store]
  · rw [if_neg h]
    by_cases h0 : 0 ≤ off ∧ off < 4096
    · rw [poke, if_pos h0, Option.bind_some, poke, if_neg (by omega)]
    · rw [poke, if_neg h0, Option.bind_none]

/-- The code of `putc` is `Screen.putc` on the screen of `t`. -/
theorem putc_eq (con : Console) (t : TermId) (P : ℕ) (c : Byte) :
    con.putc t P c =
      ((con.screenAt t P).putc c).map fun s => (con.setScreenAt t P s).refresh t := by
  -- a newline moves the cursor, another character is stored first
  by_cases hc : isNewline c = true
  · rw [putc, if_pos hc, Screen.putc, if_pos hc, Option.map_some, putcNewline_eq]
    rfl
  · have hcell : con.cursorCell t = (con.screenAt t P).cell := rfl
    have hpoke := poke_poke_eq con t P (con.screenAt t P).cell c
    rw [putc, if_neg hc, Screen.putc, if_neg hc, hcell]
    simp only [Option.bind_eq_bind]
    rw [← Option.bind_assoc, hpoke]
    split_ifs with h
    · rw [Option.bind_some, Option.map_some, putcAdvance_eq, screenAt_setScreenAt,
        setScreenAt_setScreenAt]
      rfl
    · rfl

/-! ## What printing leaves alone -/

/-- `con'` differs from `con` only in the cursor of `t`, in page `P`, and in the registers of the
CRT controller. -/
structure OnlyScreen (t : TermId) (P : ℕ) (con con' : Console) : Prop where
  termOnScreen : con'.termOnScreen = con.termOnScreen
  logingPassword : con'.logingPassword = con.logingPassword
  terms : ∀ t', t' ≠ t → con'.terms t' = con.terms t'
  line : ∃ x y, con'.terms t = { con.terms t with screenX := x, screenY := y }
  vram : ∀ Q, Q ≠ P → con'.vram Q = con.vram Q

namespace OnlyScreen

theorem refl (con : Console) : OnlyScreen t P con con :=
  ⟨rfl, rfl, fun _ _ => rfl, ⟨_, _, rfl⟩, fun _ _ => rfl⟩

theorem trans (h : OnlyScreen t P con con') (h' : OnlyScreen t P con' con'') :
    OnlyScreen t P con con'' where
  termOnScreen := h'.termOnScreen.trans h.termOnScreen
  logingPassword := h'.logingPassword.trans h.logingPassword
  terms t' ht := (h'.terms t' ht).trans (h.terms t' ht)
  line := by
    obtain ⟨x, y, hxy⟩ := h.line
    obtain ⟨x', y', hxy'⟩ := h'.line
    exact ⟨x', y', by rw [hxy', hxy]⟩
  vram Q hQ := (h'.vram Q hQ).trans (h.vram Q hQ)

/-- The screen of another terminal on another page. -/
theorem screenAt_eq (h : OnlyScreen t P con con') {Q : ℕ} (ht : t' ≠ t) (hQ : Q ≠ P) :
    con'.screenAt t' Q = con.screenAt t' Q := by
  rw [screenAt, screenAt, h.terms t' ht, h.vram Q hQ]

theorem setScreenAt (con : Console) (t : TermId) (P : ℕ) (s : Screen) :
    OnlyScreen t P con (con.setScreenAt t P s) :=
  ⟨rfl, rfl, fun _ ht => Function.update_of_ne ht _ _,
    ⟨s.x, s.y, Function.update_self _ _ _⟩, fun _ hQ => Function.update_of_ne hQ _ _⟩

theorem updateCursor (con : Console) : OnlyScreen t P con con.updateCursor :=
  ⟨rfl, rfl, fun _ _ => rfl, ⟨_, _, rfl⟩, fun _ _ => rfl⟩

theorem refresh (con : Console) (t' : TermId) : OnlyScreen t P con (con.refresh t') := by
  rw [Console.refresh]
  split_ifs
  · exact updateCursor con
  · exact refl con

end OnlyScreen

@[simp]
theorem screenAt_refresh (con : Console) (t t' : TermId) (P : ℕ) :
    (con.refresh t').screenAt t P = con.screenAt t P := by
  rw [refresh]
  split_ifs <;> rfl

theorem onlyScreen_putc (h : con.putc t P c = some con') : OnlyScreen t P con con' := by
  rw [putc_eq, Option.map_eq_some_iff] at h
  obtain ⟨s, -, rfl⟩ := h
  exact (OnlyScreen.setScreenAt con t P s).trans (OnlyScreen.refresh _ t)

theorem screenAt_putc (h : con.putc t P c = some con') :
    (con.screenAt t P).putc c = some (con'.screenAt t P) := by
  rw [putc_eq, Option.map_eq_some_iff] at h
  obtain ⟨s, hs, rfl⟩ := h
  rw [hs, screenAt_refresh, screenAt_setScreenAt]

theorem onlyScreen_puts (h : con.puts t P l = some con') : OnlyScreen t P con con' := by
  induction l generalizing con with
  | nil =>
    cases h
    exact .refl _
  | cons c l ih =>
    obtain ⟨con₁, h₁, hrest⟩ := Transition.exec_cons_eq_some.mp h
    exact (onlyScreen_putc h₁).trans (ih hrest)

theorem screenAt_puts (h : con.puts t P l = some con') :
    (con.screenAt t P).puts l = some (con'.screenAt t P) := by
  induction l generalizing con with
  | nil =>
    cases h
    rfl
  | cons c l ih =>
    obtain ⟨con₁, h₁, hrest⟩ := Transition.exec_cons_eq_some.mp h
    exact Transition.exec_cons_eq_some.mpr ⟨_, screenAt_putc h₁, ih hrest⟩

/-- Printing faults exactly when it would on the screen alone. -/
theorem puts_eq_none_iff : con.puts t P l = none ↔ (con.screenAt t P).puts l = none := by
  induction l generalizing con with
  | nil => simp [puts, Screen.puts]
  | cons c l ih =>
    rw [puts, Screen.puts, Transition.exec_cons, Transition.exec_cons, putc_eq]
    cases hs : (con.screenAt t P).putc c with
    | none => simp
    | some s =>
      have hrest := @ih ((con.setScreenAt t P s).refresh t)
      rw [screenAt_refresh, screenAt_setScreenAt] at hrest
      simpa [puts, Screen.puts] using hrest

end Console

end Ece391
