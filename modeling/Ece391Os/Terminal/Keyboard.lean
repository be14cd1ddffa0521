import Ece391Os.Terminal.Isolation

/-!
# The keyboard

`kbd` and `kbd_to_char` of `terminal.c`.

* `decode` is the pure part of `kbd_to_char`: the modifier flags, and what the scancode asks for,
  with the cases of its `switch` falling through where they do in the source.
* `keyEffect` is what an input byte does to the line and the cursor of the terminal on screen, and
  in which order it touches the video memory. The handler reads neither of the two through the
  other, so the assignments to `terms` can be collected in one.
* `kbd` is the interrupt handler. It is `none` where the handler never leaves: on a page fault, and
  on Ctrl+C while a program runs on another terminal than the one on screen.
* `systemStep` adds the keys, and the statements of `terminal_read`, to the steps of the output.
-/

namespace Ece391

open Transition

/-! ## Scancodes -/

/-- The table `characters`. -/
def characters : List Byte :=
  [0, 0] ++ ascii "1234567890-" ++ ascii "=" ++ [8, 146] ++ ascii "qwertyuiop" ++
  ascii "[]" ++ [10, 0] ++ ascii "asdfghjkl" ++ ascii ";" ++ [39, 0x60, 0, 92] ++
  ascii "zxcvbnm," ++ ascii "./" ++ [0] ++ ascii "*" ++ [0] ++ ascii " " ++ [0, 0x80, 0x81, 0x82] ++
  ascii "!@#$%^&*()_+" ++ [8, 146] ++ ascii "QWERTYUIOP" ++ [0x7B, 0x7D] ++ ascii "|" ++ [0] ++
  ascii "ASDFGHJKL:" ++ [34] ++ ascii "~" ++ [0, 124] ++ ascii "ZXCVBNM<>?" ++ [0] ++ ascii "*" ++
  [0] ++ ascii " " ++ [0, 0, 0, 0]

/-- `characters[n]`; the index can lie behind the table. -/
def characterAt (env : Env) (n : ℕ) : Byte := characters.getD n (env.charactersAfter (n - 122))

example : characters.length = 122 := by decide +kernel

/-- What a scancode asks for. -/
inductive KeyAction
  | null
  | clearLine
  | interrupt
  | switch (t : TermId)
  | char (c : Byte)
  deriving DecidableEq

/-- The lookup behind the `switch` of `kbd_to_char`. -/
def lookup (env : Env) (kb : Keyboard) (inpack : ℕ) : Byte :=
  if kb.capsLockOn && !(kb.lShiftOn || kb.rShiftOn) then
    if (15 < inpack ∧ inpack < 26) ∨ (29 < inpack ∧ inpack < 39) ∨ (43 < inpack ∧ inpack < 51) then
      characterAt env (inpack + 60)
    else characterAt env inpack
  else if (kb.lShiftOn || kb.rShiftOn) && !kb.capsLockOn then characterAt env (inpack + 60)
  else characterAt env inpack

/-- `case 61` and what follows. -/
def case61 (env : Env) (kb : Keyboard) (inpack : ℕ) : KeyAction :=
  if kb.altOn then .switch 2 else .char (lookup env kb inpack)

/-- `case 60`, which falls through. -/
def case60 (env : Env) (kb : Keyboard) (inpack : ℕ) : KeyAction :=
  if kb.altOn then .switch 1 else case61 env kb inpack

/-- `case 59`, which falls through. -/
def case59 (env : Env) (kb : Keyboard) (inpack : ℕ) : KeyAction :=
  if kb.altOn then .switch 0 else case60 env kb inpack

/-- `case 46`, which falls through. -/
def case46 (env : Env) (kb : Keyboard) (inpack : ℕ) : KeyAction :=
  if kb.ctrlReady then .interrupt else case59 env kb inpack

/-- `case 38`, which falls through. -/
def case38 (env : Env) (kb : Keyboard) (inpack : ℕ) : KeyAction :=
  if kb.ctrlReady then .clearLine else case46 env kb inpack

/-- The `switch` of `kbd_to_char`: the flags afterwards, and what is to be done. -/
def decode (env : Env) (kb : Keyboard) (inpack : Byte) : Keyboard × KeyAction :=
  match inpack.toNat with
  -- modifiers and the keys without a character
  | 58 => ({ kb with capsLockOn := !kb.capsLockOn }, .null)
  | 42 => ({ kb with lShiftOn := true }, .null)
  | 170 => ({ kb with lShiftOn := false }, .null)
  | 54 => ({ kb with rShiftOn := true }, .null)
  | 182 => ({ kb with rShiftOn := false }, .null)
  | 29 => ({ kb with ctrlReady := true }, .null)
  | 157 => ({ kb with ctrlReady := false }, .null)
  | 91 => (kb, .null)
  | 56 => ({ kb with altOn := true }, .null)
  | 184 => ({ kb with altOn := false }, .null)
  | 92 => (kb, .null)
  | 93 => (kb, .null)
  -- these cases of the switch fall through to the next ones
  | 38 => (kb, case38 env kb 38)
  | 46 => (kb, case46 env kb 46)
  | 59 => (kb, case59 env kb 59)
  | 60 => (kb, case60 env kb 60)
  | 61 => (kb, case61 env kb 61)
  | n => (kb, .char (lookup env kb n))

/-! ## Input bytes -/

/-- `BUF_SIZE` -/
def bufSize : ℤ := 128

/-- A change of the video memory: a scroll of the page at `VIDEO`, or a character in a cell of the
terminal on screen. -/
inductive VideoOp
  | scroll
  | cell (offset : ℤ) (c : Byte)
  deriving DecidableEq

/-- What an input byte does: the terminal afterwards, the indices of `terminal_buf` stored to, the
changes of the video memory in order, and whether the hardware cursor is updated. -/
structure KeyEffect where
  term : Term
  stores : List ℤ
  ops : List VideoOp
  moved : Bool

/-- Enter. -/
def enterKey (term : Term) : KeyEffect :=
  let bottom := term.screenY + 1 = numRows
  { term := { term with
      screenY := if bottom then term.screenY else term.screenY + 1
      screenX := 0
      terminalReadOn := false }
    stores := []
    ops := if bottom then [.scroll] else []
    moved := true }

/-- Backspace. -/
def backspaceKey (term : Term) : KeyEffect :=
  if term.terminalCnt = 0 then { term, stores := [], ops := [], moved := false }
  else
    let wraps := term.screenX = 0 ∧ term.screenY ≠ 0
    { term := { term with
        terminalBuf := Function.update term.terminalBuf term.terminalCnt 0#8
        terminalCnt := term.terminalCnt - 1
        screenX := if wraps then numCols - 1 else term.screenX - 1
        screenY := if wraps then term.screenY - 1 else term.screenY }
      stores := [term.terminalCnt]
      ops := [.cell (term.screenX - 1 + term.screenY * numCols) 0#8]
      moved := true }

/-- A character; `hidden` is `loging_password`. -/
def charKey (hidden : Bool) (input : Byte) (term : Term) : KeyEffect :=
  if term.terminalCnt ≤ bufSize - 1 then
    -- column 80 starts the next row, and the last row scrolls
    let wraps := term.screenX + 1 = 80
    let bottom := wraps ∧ term.screenY + 1 = numRows
    let x := if wraps then 0 else term.screenX + 1
    let y := if bottom then term.screenY else if wraps then term.screenY + 1 else term.screenY
    { term := { term with
        terminalBuf := Function.update term.terminalBuf term.terminalCnt input
        terminalCnt := term.terminalCnt + 1
        screenX := x
        screenY := y }
      stores := [term.terminalCnt]
      ops := (if bottom then [.scroll] else []) ++
        [.cell (x - 1 + y * numCols) (if hidden then 0x20#8 else input)]
      moved := true }
  else { term, stores := [], ops := [], moved := false }

/-- The test for a full buffer at the end of the handler. -/
def bufferFull (e : KeyEffect) : KeyEffect :=
  if e.term.terminalCnt = bufSize then
    let bottom := ¬ e.term.screenY < numRows - 1
    { e with
      term := { e.term with
        screenY := if bottom then e.term.screenY else e.term.screenY + 1
        screenX := 0
        terminalReadOn := false }
      ops := e.ops ++ if bottom then [.scroll] else []
      moved := true }
  else e

/-- What an input byte does while a read is on. -/
def keyEffect (hidden : Bool) (input : Byte) (term : Term) : KeyEffect :=
  bufferFull <|
    if input = 0x0A#8 then enterKey term
    else if input = 0x08#8 then backspaceKey term
    else charKey hidden input term

namespace Console

/-- A change of the video memory, where `P` is the page mapped at `VIDEO`. -/
def videoOp (P : ℕ) (con : Console) : VideoOp → Option Console
  | .scroll => some (con.scrollScreen P)
  | .cell offset c => do
    let con ← con.pokeRead con.termOnScreen (2 * offset) c
    con.pokeRead con.termOnScreen (2 * offset + 1) 7#8

/-- Carry out what a key does. -/
def key (con : Console) (P : ℕ) (e : KeyEffect) : Option Console := do
  let con ← exec (videoOp P) con e.ops
  let con := con.setTerm con.termOnScreen fun _ => e.term
  some (if e.moved then con.updateCursor else con)

/-- `clear_key`: the page of the terminal on screen is always present. -/
def clearKey (con : Console) : Console :=
  let page := videoPage con.termOnScreen
  (resetCursor { con with
    vram := Function.update con.vram page (clearPage (con.vram page)) }).updateCursor

end Console

/-- The loop of Ctrl+L over `terminal_buf`, and the reset of the counter. -/
def Term.blankLine (term : Term) : Term :=
  { term with
    terminalBuf := fun i => if 0 ≤ i ∧ i < 128 then 0x20#8 else term.terminalBuf i
    terminalCnt := 0 }

/-! ## The interrupt handler -/

/-- How the handler ends: it returns to what it interrupted, having stored to these indices of
`terminal_buf`, or it has left the interrupted process. -/
inductive KbdResult
  | iret (stores : List ℤ)
  | halted (r : HaltResult)

/-- Where the handler has stored, when it returns. -/
def KbdResult.stores : KbdResult → Option (List ℤ)
  | iret stores => some stores
  | halted _ => none

theorem KbdResult.stores_eq_some {r : KbdResult} {stores : List ℤ} :
    r.stores = some stores ↔ r = .iret stores := by
  cases r <;> simp [KbdResult.stores]

/-- `kbd` once `kbd_to_char` has returned `input`. -/
def kbdInput (k : Kernel) (input : Byte) (stores : List ℤ) : Option (KbdResult × Kernel) :=
  let t := k.con.termOnScreen
  if input = 255#8 then
    let con := k.con.setTerm t fun term => { term with terminalReadOn := false }
    some (.iret stores, { k with con }.sendEoi 1#32)
  else if input ≠ 0#8 ∧ (k.con.terms t).terminalReadOn then
    let e := keyEffect k.con.logingPassword input (k.con.terms t)
    (k.con.key k.procs.videoMapping e).map fun con =>
      (.iret (stores ++ e.stores), { k with con }.sendEoi 1#32)
  else some (.iret stores, k.sendEoi 1#32)

/-- `kbd` for the scancode `inpack`. -/
def kbd (env : Env) (inpack : Byte) (k : Kernel) : Option (KbdResult × Kernel) :=
  let (flags, action) := decode env k.kbd inpack
  let k := { k with kbd := flags }
  match action with
  | .null => kbdInput k 0#8 []
  | .clearLine =>
    let con := k.con.clearKey.setTerm k.con.termOnScreen Term.blankLine
    kbdInput { k with con } 255#8 ((List.range 128).map Nat.cast)
  | .interrupt =>
    -- `curr_pid` decides, whatever is on screen
    let k := k.sendEoi 1#32
    if IsRootPid k.procs.currPid then do
      let k ← k.puts architect
      kbdInput k 255#8 []
    -- `while(term_on_screen!=curr_term){}` with the interrupts disabled
    else if k.con.termOnScreen ≠ k.procs.currTerm then none
    else (halt env 0#8 (fun _ => 0#8) (k.disableIrq 0#32)).map fun (r, k) => (.halted r, k)
  | .switch t => kbdInput (switchTerm t (k.sendEoi 1#32)) 0#8 []
  | .char c => kbdInput k c []

/-! ## The whole system -/

/-- A statement of `terminal_read` on the terminal of the running process. -/
inductive ReadStatement
  | armFlag
  | resetCnt
  | clearBuf (i : Fin 128)
  | clearAfterCopy

/-- The effect of a statement of `terminal_read`. -/
def ReadStatement.run : ReadStatement → Term → Term
  | armFlag, term => { term with terminalReadOn := true }
  | resetCnt, term => { term with terminalCnt := 0 }
  | clearBuf i, term => { term with terminalBuf := Function.update term.terminalBuf i 0x20#8 }
  | clearAfterCopy, term =>
    { term with terminalBuf := fun i => if 0 ≤ i ∧ i < 128 then 0#8 else term.terminalBuf i }

/-- What can happen in the system. The statements of `terminal_read` come in any order, which covers
every order its readers can have. -/
inductive SystemEvent
  | output (e : OutputEvent)
  | read (s : ReadStatement)
  | key (inpack : Byte)

/-- One step of the system. -/
def systemStep (env : Env) (k : Kernel) : SystemEvent → Option Kernel
  | .output e => outputStep env k e
  | .read s => some { k with con := k.con.setTerm k.procs.currTerm s.run }
  | .key inpack => (kbd env inpack k).map Prod.snd

end Ece391
