import Ece391Os.Terminal.Keyboard

/-!
# The line under the cursor

What a key does to the part of a terminal that `kbd` and `terminal_read` share.

* `inputEffect` is one effect for all input bytes, and `kbd_cases` says once what a key can do.
* `Term.lineBuffer` is the shared part: the buffer, the counter, and the flag.
* `lines_outputStep`: no output and no process event touches it.
* `lines_kbd`: a key acts on the line of the terminal on screen, and on no other.
-/

namespace Ece391

open Transition

/-! ## What a key can do -/

/-- What an input byte does: 255 only ends the line, and without a read no byte does anything. -/
def inputEffect (hidden : Bool) (input : Byte) (term : Term) : KeyEffect :=
  if input = 255#8 then
    { term := { term with terminalReadOn := false }, stores := [], ops := [], moved := false }
  else if input ≠ 0#8 ∧ term.terminalReadOn then keyEffect hidden input term
  else { term, stores := [], ops := [], moved := false }

namespace Console

theorem setTerm_self (con : Console) (t : TermId) : (con.setTerm t fun _ => con.terms t) = con := by
  rw [setTerm, Function.update_eq_self]

/-- An effect that draws nothing. -/
theorem key_of_still (con : Console) (P : ℕ) (term : Term) :
    con.key P { term, stores := [], ops := [], moved := false } =
      some (con.setTerm con.termOnScreen fun _ => term) := rfl

end Console

theorem kbdInput_eq (k : Kernel) (input : Byte) (stores : List ℤ) :
    kbdInput k input stores =
      let e := inputEffect k.con.logingPassword input (k.con.terms k.con.termOnScreen)
      (k.con.key k.procs.videoMapping e).map fun con =>
        (.iret (stores ++ e.stores), { k with con }.sendEoi 1#32) := by
  rw [kbdInput, inputEffect]
  split_ifs with h255 hread
  · simp [Console.key_of_still, Console.setTerm]
  · rfl
  · simp [Console.key_of_still, Console.setTerm_self]

/-- The cases of a key, by what its scancode asks for. `flags` are the modifiers afterwards. -/
inductive Keys (env : Env) (inpack : Byte) (k : Kernel) : KbdResult → Kernel → Prop
  | null {flags : Keyboard} (hkey : decode env k.kbd inpack = (flags, .null)) :
      Keys env inpack k (.iret []) ({ k with kbd := flags }.sendEoi 1#32)
  | clearLine {flags : Keyboard} (hkey : decode env k.kbd inpack = (flags, .clearLine)) :
      Keys env inpack k (.iret ((List.range 128).map Nat.cast))
        ({ k with
          kbd := flags
          con := k.con.clearKey.setTerm k.con.termOnScreen fun term =>
            { term.blankLine with terminalReadOn := false } }.sendEoi 1#32)
  | architect {flags : Keyboard} {con : Console}
      (hkey : decode env k.kbd inpack = (flags, .interrupt)) (hroot : IsRootPid k.procs.currPid)
      (hcon : k.con.puts k.procs.currTerm k.procs.videoMapping architect = some con) :
      Keys env inpack k (.iret [])
        (({ k with
          kbd := flags
          con := con.setTerm k.con.termOnScreen fun term =>
            { term with terminalReadOn := false } }.sendEoi 1#32).sendEoi 1#32)
  | halt {flags : Keyboard} {r : HaltResult} {k' : Kernel}
      (hkey : decode env k.kbd inpack = (flags, .interrupt)) (hroot : ¬ IsRootPid k.procs.currPid)
      (hterm : k.con.termOnScreen = k.procs.currTerm)
      (hhalt : Ece391.halt env 0#8 (fun _ => 0#8)
        (({ k with kbd := flags }.sendEoi 1#32).disableIrq 0#32) = some (r, k')) :
      Keys env inpack k (.halted r) k'
  | switch {flags : Keyboard} {t : TermId} (hkey : decode env k.kbd inpack = (flags, .switch t)) :
      Keys env inpack k (.iret [])
        ((switchTerm t ({ k with kbd := flags }.sendEoi 1#32)).sendEoi 1#32)
  | char {flags : Keyboard} {c : Byte} {con : Console}
      (hkey : decode env k.kbd inpack = (flags, .char c))
      (hcon : k.con.key k.procs.videoMapping
        (inputEffect k.con.logingPassword c (k.con.terms k.con.termOnScreen)) = some con) :
      Keys env inpack k
        (.iret (inputEffect k.con.logingPassword c (k.con.terms k.con.termOnScreen)).stores)
        ({ k with kbd := flags, con }.sendEoi 1#32)

theorem kbdInput_zero (k : Kernel) (stores : List ℤ) :
    kbdInput k 0#8 stores = some (.iret stores, k.sendEoi 1#32) := by
  rw [kbdInput, if_neg (by decide), if_neg (by simp)]

theorem kbdInput_lineEnd (k : Kernel) (stores : List ℤ) :
    kbdInput k 255#8 stores = some (.iret stores, { k with
      con := k.con.setTerm k.con.termOnScreen fun term =>
        { term with terminalReadOn := false } }.sendEoi 1#32) := by
  rw [kbdInput, if_pos rfl]

theorem kbd_cases {env : Env} {inpack : Byte} {k k' : Kernel} {r : KbdResult}
    (h : kbd env inpack k = some (r, k')) : Keys env inpack k r k' := by
  rw [kbd] at h
  rcases hkey : decode env k.kbd inpack with ⟨flags, action⟩
  rw [hkey] at h
  cases action with
  | null =>
    simp only [kbdInput_zero] at h
    cases h
    exact .null hkey
  | clearLine =>
    simp only [kbdInput_lineEnd] at h
    cases h
    -- the line is blanked and ended by two assignments to the same terminal
    have hterm : ∀ con : Console, (con.setTerm con.termOnScreen Term.blankLine).setTerm
        con.termOnScreen (fun term => { term with terminalReadOn := false }) =
          con.setTerm con.termOnScreen fun term =>
            { term.blankLine with terminalReadOn := false } := fun con => by
      simp [Console.setTerm]
    exact hterm k.con.clearKey ▸ .clearLine hkey
  | interrupt =>
    simp only at h
    split_ifs at h with hroot hterm
    · obtain ⟨k₁, hk₁, h⟩ := Option.bind_eq_some_iff.mp h
      obtain ⟨con, hcon, rfl⟩ := Option.map_eq_some_iff.mp hk₁
      rw [kbdInput_lineEnd] at h
      cases h
      -- printing does not change which terminal is on screen
      have hscreen : con.termOnScreen = k.con.termOnScreen :=
        (Console.onlyScreen_puts hcon).termOnScreen
      have hkeys := Keys.architect hkey hroot hcon
      rw [← hscreen] at hkeys
      exact hkeys
    · obtain ⟨⟨r, k₁⟩, hhalt, h⟩ := Option.map_eq_some_iff.mp h
      cases h
      exact .halt hkey hroot (not_not.mp hterm) hhalt
  | switch t =>
    simp only [kbdInput_zero] at h
    cases h
    exact .switch hkey
  | char c =>
    simp only [kbdInput_eq, List.nil_append, Option.map_eq_some_iff, Prod.mk.injEq] at h
    obtain ⟨con, hcon, rfl, rfl⟩ := h
    exact .char hkey hcon

/-! ## The shared part of a terminal -/

/-- The fields of `term_t` that `kbd` and `terminal_read` share. -/
@[ext]
structure LineBuffer where
  buf : ℤ → Byte
  cnt : ℤ
  readOn : Bool

/-- The line buffer of a terminal. -/
def Term.lineBuffer (term : Term) : LineBuffer :=
  ⟨term.terminalBuf, term.terminalCnt, term.terminalReadOn⟩

namespace LineBuffer

/-- The test for a full buffer. -/
def full (l : LineBuffer) : LineBuffer := if l.cnt = bufSize then { l with readOn := false } else l

/-- A character behind the line, if there is room. -/
def push (c : Byte) (l : LineBuffer) : LineBuffer :=
  if l.cnt ≤ bufSize - 1 then
    { l with buf := Function.update l.buf l.cnt c, cnt := l.cnt + 1 }
  else l

/-- Backspace. -/
def pop (l : LineBuffer) : LineBuffer :=
  if l.cnt = 0 then l
  else { l with buf := Function.update l.buf l.cnt 0#8, cnt := l.cnt - 1 }

/-- An input byte. -/
def input (c : Byte) (l : LineBuffer) : LineBuffer :=
  if c = 255#8 then { l with readOn := false }
  else if c ≠ 0#8 ∧ l.readOn then
    if c = 0x0A#8 then full { l with readOn := false }
    else if c = 0x08#8 then full l.pop
    else full (l.push c)
  else l

/-- Ctrl+L. -/
def blank (l : LineBuffer) : LineBuffer :=
  { buf := fun i => if 0 ≤ i ∧ i < 128 then 0x20#8 else l.buf i, cnt := 0, readOn := false }

end LineBuffer

theorem lineBuffer_bufferFull (e : KeyEffect) :
    (bufferFull e).term.lineBuffer = e.term.lineBuffer.full := by
  by_cases h : e.term.terminalCnt = bufSize <;>
    simp [bufferFull, LineBuffer.full, Term.lineBuffer, h]

/-- The line buffer does not depend on the cursor. -/
theorem lineBuffer_inputEffect (hidden : Bool) (c : Byte) (term : Term) :
    (inputEffect hidden c term).term.lineBuffer = term.lineBuffer.input c := by
  -- the three keys of a read, each on the line alone
  have hpop : (backspaceKey term).term.lineBuffer = term.lineBuffer.pop := by
    by_cases h : term.terminalCnt = 0 <;>
      simp [backspaceKey, LineBuffer.pop, Term.lineBuffer, h]
  have hpush : (charKey hidden c term).term.lineBuffer = term.lineBuffer.push c := by
    by_cases h : term.terminalCnt ≤ bufSize - 1 <;>
      simp [charKey, LineBuffer.push, Term.lineBuffer, h]
  rw [inputEffect, LineBuffer.input]
  by_cases h255 : c = 255#8
  · rw [if_pos h255, if_pos h255]
    rfl
  · rw [if_neg h255, if_neg h255]
    by_cases hread : c ≠ 0#8 ∧ term.terminalReadOn = true
    · rw [if_pos hread, if_pos (by exact hread), keyEffect, lineBuffer_bufferFull]
      split_ifs with henter hback
      · rfl
      · rw [hpop]
      · rw [hpush]
    · rw [if_neg hread, if_neg (by exact hread)]

/-- The line buffers of all terminals. -/
def Console.lines (con : Console) (t : TermId) : LineBuffer := (con.terms t).lineBuffer

section

variable {con con' : Console} {t : TermId} {P : ℕ} {env : Env} {k k' : Kernel}

theorem Console.OnlyScreen.lines (h : Console.OnlyScreen t P con con') :
    con'.lines = con.lines := by
  funext t'
  by_cases ht : t' = t
  · obtain ⟨x, y, hxy⟩ := h.line
    rw [Console.lines, ht, hxy]
    rfl
  · rw [Console.lines, h.terms t' ht]
    rfl

/-- A change of one terminal. -/
theorem lines_setTerm (con : Console) (t : TermId) (f : Term → Term) :
    (con.setTerm t f).lines = Function.update con.lines t (f (con.terms t)).lineBuffer := by
  funext t'
  by_cases ht : t' = t
  · subst ht
    simp [Console.lines, Console.setTerm]
  · simp [Console.lines, Console.setTerm, ht]

/-- A change of other fields of a terminal. -/
theorem lines_setTerm_of_eq {f : Term → Term} (hf : (f (con.terms t)).lineBuffer = con.lines t) :
    (con.setTerm t f).lines = con.lines := by
  rw [lines_setTerm, hf, Function.update_eq_self]

@[simp]
theorem lines_setTerm_pid (con : Console) (t : TermId) (i : Pid) :
    (con.setTerm t fun term => { term with pid := i }).lines = con.lines :=
  lines_setTerm_of_eq (by rfl)

@[simp]
theorem lines_resetCursor (con : Console) : con.resetCursor.lines = con.lines :=
  lines_setTerm_of_eq (by rfl)

theorem lines_clearVideo (k : Kernel) : k.clearVideo.con.lines = k.con.lines :=
  lines_resetCursor _

theorem lines_puts {s : List Byte} (h : k.puts s = some k') : k'.con.lines = k.con.lines := by
  obtain ⟨con, hcon, rfl⟩ := Option.map_eq_some_iff.mp h
  exact (Console.onlyScreen_puts hcon).lines

theorem lines_execute {command stack : Buffer} {r : ExecResult}
    (h : execute env command stack k = some (r, k')) : k'.con.lines = k.con.lines := by
  cases execute_cases h with
  | early hcmd hfind hk' =>
    rw [exitEarly] at hk'
    split_ifs at hk' with hclear
    · cases hk'
      exact lines_clearVideo _
    · exact (lines_puts hk' :)
  | maximumProcesses hcmd hfind hbusy hk' => exact (lines_puts hk' :)
  | loadFail => rfl
  | rootShellReady => exact lines_setTerm_pid _ _ _
  | root => exact lines_setTerm_pid _ _ _
  | child => exact lines_setTerm_pid _ _ _

theorem lines_halt {status : Byte} {stack : Buffer} {r : HaltResult}
    (h : halt env status stack k = some (r, k')) : k'.con.lines = k.con.lines := by
  -- only the pid of the terminal is assigned
  have hchild : ∀ {k k' : Kernel} {r}, haltChild status k = some (r, k') →
      k'.con.lines = k.con.lines := by
    intro k k' r h
    obtain ⟨parent, -, -, rfl⟩ := haltChild_eq_some.mp h
    exact lines_setTerm_pid _ _ _
  by_cases hroot : IsRootPid k.procs.currPid
  · -- a root shell prints, and is started again by `execute`
    obtain ⟨con, k₁, result, hcon, hx, hres⟩ := halt_root hroot h
    have hlines : k₁.con.lines = k.con.lines :=
      (lines_execute hx).trans (Console.onlyScreen_puts hcon).lines
    rcases hres with ⟨eip, -, -, rfl⟩ | ⟨-, hres⟩
    · exact hlines
    · exact (hchild hres).trans hlines
  · rw [halt_child hroot] at h
    exact (hchild h).trans rfl

theorem lines_switchTerm (toTerm : TermId) (k : Kernel) :
    (switchTerm toTerm k).con.lines = k.con.lines := by
  rw [switchTerm]
  split_ifs <;> rfl

/-- Output and process events leave the lines alone. -/
theorem lines_outputStep {e : OutputEvent} (h : outputStep env k e = some k') :
    k'.con.lines = k.con.lines := by
  cases e with
  | write bytes => exact lines_puts h
  | process e =>
    cases e with
    | execute command stack =>
      obtain ⟨⟨r, _⟩, hx, rfl⟩ := Option.map_eq_some_iff.mp h
      exact lines_execute hx
    | halt status stack =>
      obtain ⟨⟨r, _⟩, hx, rfl⟩ := Option.map_eq_some_iff.mp h
      exact lines_halt hx
    | tick esp =>
      cases h
      rw [con_contextSwitch]
    | switchTerm toTerm =>
      cases h
      exact lines_switchTerm toTerm k

end

/-! ## What a key does to the lines -/

namespace Console

variable {con con' : Console} {P : ℕ} {e : KeyEffect}

/-- Drawing changes the video memory only. -/
theorem terms_videoOps {ops : List VideoOp} (h : exec (videoOp P) con ops = some con') :
    con'.terms = con.terms ∧ con'.termOnScreen = con.termOnScreen := by
  refine exec_invariant (I := fun c => c.terms = con.terms ∧ c.termOnScreen = con.termOnScreen)
    (P := fun _ _ => True) ?_ ⟨rfl, rfl⟩ (along_of_forall (fun _ _ => trivial) _) h
  rintro c op c' hc - hstep
  cases op with
  | scroll =>
    cases hstep
    exact hc
  | cell offset b =>
    -- the character and the attribute byte are two stores
    obtain ⟨c₁, h₁, h₂⟩ := Option.bind_eq_some_iff.mp hstep
    obtain ⟨page, -, rfl⟩ := Option.map_eq_some_iff.mp h₁
    obtain ⟨page', -, rfl⟩ := Option.map_eq_some_iff.mp h₂
    exact hc

/-- A key replaces the terminal on screen, and draws. -/
theorem key_eq_some (h : con.key P e = some con') :
    ∃ con₁, exec (videoOp P) con e.ops = some con₁ ∧ con'.vram = con₁.vram ∧
      con'.terms = Function.update con.terms con.termOnScreen e.term ∧
      con'.termOnScreen = con.termOnScreen := by
  obtain ⟨con₁, hops, h⟩ := Option.bind_eq_some_iff.mp h
  obtain ⟨hterms, hscreen⟩ := terms_videoOps hops
  cases h
  refine ⟨con₁, hops, ?_⟩
  split_ifs <;> simp [updateCursor, setTerm, hterms, hscreen]

theorem lines_key (h : con.key P e = some con') :
    con'.lines = Function.update con.lines con.termOnScreen e.term.lineBuffer := by
  obtain ⟨-, -, -, hterms, -⟩ := key_eq_some h
  funext t
  by_cases ht : t = con.termOnScreen
  · subst ht
    simp [lines, hterms]
  · simp [lines, hterms, ht]

end Console

namespace LineBuffer

/-- What a key does to the line; `root` says whether a root shell runs. -/
def press (action : KeyAction) (root : Bool) (l : LineBuffer) : LineBuffer :=
  match action with
  | .clearLine => l.blank
  | .interrupt => if root then { l with readOn := false } else l
  | .char c => l.input c
  | .null | .switch _ => l

/-- The indices of the buffer a key stores to. -/
def indices (action : KeyAction) (l : LineBuffer) : List ℤ :=
  match action with
  | .clearLine => (List.range 128).map Nat.cast
  | .char c =>
    if c = 255#8 ∨ c = 0#8 ∨ c = 0x0A#8 ∨ l.readOn = false then []
    else if c = 0x08#8 then (if l.cnt = 0 then [] else [l.cnt])
    else if l.cnt ≤ bufSize - 1 then [l.cnt] else []
  | .null | .interrupt | .switch _ => []

end LineBuffer

namespace LineBuffer

/-- The counter is an index of `terminal_buf`, or one behind it. -/
def InRange (l : LineBuffer) : Prop := 0 ≤ l.cnt ∧ l.cnt ≤ bufSize

variable {l : LineBuffer} {c : Byte}

theorem inRange_of_cnt_eq_zero (h : l.cnt = 0) : l.InRange := by
  rw [InRange, h]
  decide

theorem InRange.full (h : l.InRange) : l.full.InRange := by
  rw [LineBuffer.full]
  split_ifs
  · exact h
  · exact h

theorem InRange.push (h : l.InRange) (c : Byte) : (l.push c).InRange := by
  obtain ⟨h0, h1⟩ := h
  rw [LineBuffer.push]
  split_ifs <;> simp only [InRange, bufSize] at * <;> omega

theorem InRange.pop (h : l.InRange) : l.pop.InRange := by
  obtain ⟨h0, h1⟩ := h
  rw [LineBuffer.pop]
  split_ifs <;> simp only [InRange, bufSize] at * <;> omega

theorem InRange.press (h : l.InRange) (action : KeyAction) (root : Bool) :
    (l.press action root).InRange := by
  cases action with
  | null | switch => exact h
  | clearLine => exact inRange_of_cnt_eq_zero rfl
  | interrupt =>
    rw [LineBuffer.press]
    split_ifs
    · exact h
    · exact h
  | char c =>
    rw [LineBuffer.press, LineBuffer.input]
    split_ifs
    · exact h
    · exact InRange.full h
    · exact h.pop.full
    · exact (h.push c).full
    · exact h

end LineBuffer

theorem stores_inputEffect (hidden : Bool) (c : Byte) (term : Term) :
    (inputEffect hidden c term).stores = term.lineBuffer.indices (.char c) := by
  -- the test for a full buffer stores nothing
  have hfull : ∀ e : KeyEffect, (bufferFull e).stores = e.stores := by
    intro e
    rw [bufferFull]
    split_ifs <;> rfl
  rw [inputEffect, LineBuffer.indices]
  by_cases h255 : c = 255#8
  · rw [if_pos h255, if_pos (Or.inl h255)]
  · rw [if_neg h255]
    by_cases hread : c ≠ 0#8 ∧ term.terminalReadOn = true
    · rw [if_pos hread, keyEffect, hfull]
      by_cases henter : c = 0x0A#8
      · rw [if_pos henter, if_pos (Or.inr (Or.inr (Or.inl henter)))]
        rfl
      · -- a key that the read takes: it is neither of those that store nothing
        have hoff : ¬ (c = 255#8 ∨ c = 0#8 ∨ c = 0x0A#8 ∨ term.lineBuffer.readOn = false) := by
          simp [h255, hread.1, henter, Term.lineBuffer, hread.2]
        rw [if_neg henter, if_neg hoff]
        by_cases hback : c = 0x08#8
        · rw [if_pos hback, if_pos hback, backspaceKey]
          by_cases hcnt : term.terminalCnt = 0 <;> simp [Term.lineBuffer, hcnt]
        · rw [if_neg hback, if_neg hback, charKey]
          by_cases hcnt : term.terminalCnt ≤ bufSize - 1 <;> simp [Term.lineBuffer, hcnt]
    · -- no read, or the null byte
      have hoff : c = 255#8 ∨ c = 0#8 ∨ c = 0x0A#8 ∨ term.lineBuffer.readOn = false := by
        by_cases hzero : c = 0#8
        · exact Or.inr (Or.inl hzero)
        · refine Or.inr (Or.inr (Or.inr ?_))
          simpa [Term.lineBuffer, hzero] using hread
      rw [if_neg hread, if_pos hoff]

section

variable {env : Env} {inpack : Byte} {k k' : Kernel} {r : KbdResult}

/-- A key acts on the line of the terminal on screen, and on no other. -/
theorem lines_kbd (h : kbd env inpack k = some (r, k')) :
    k'.con.lines = Function.update k.con.lines k.con.termOnScreen
      ((k.con.lines k.con.termOnScreen).press (decode env k.kbd inpack).2
        (IsRootPid k.procs.currPid)) := by
  cases kbd_cases h with
  | null hkey =>
    rw [hkey]
    exact (Function.update_eq_self _ _).symm
  | clearLine hkey =>
    rw [hkey, Kernel.con_sendEoi, lines_setTerm]
    -- the screen is cleared first, which does not touch the line
    have hclear : k.con.clearKey.lines = k.con.lines := lines_resetCursor _
    have hline : (k.con.clearKey.terms k.con.termOnScreen).lineBuffer =
        k.con.lines k.con.termOnScreen := congrFun hclear _
    rw [hclear, LineBuffer.press, ← hline]
    rfl
  | architect hkey hroot hcon =>
    -- a root shell prints, and the flag of the terminal on screen is cleared
    have hlines := (Console.onlyScreen_puts hcon).lines
    rw [hkey, Kernel.con_sendEoi, Kernel.con_sendEoi, lines_setTerm]
    simp only [LineBuffer.press, hroot, decide_true, if_true, ← hlines]
    rfl
  | halt hkey hroot hterm hhalt =>
    -- the process halts, and the line stays
    rw [hkey, lines_halt hhalt]
    simp only [LineBuffer.press, hroot, decide_false, Bool.false_eq_true, if_false]
    exact (Function.update_eq_self _ _).symm
  | switch hkey =>
    rw [hkey]
    refine (lines_switchTerm _ _).trans ?_
    exact (Function.update_eq_self _ _).symm
  | char hkey hcon =>
    rw [hkey]
    refine (Console.lines_key hcon).trans ?_
    rw [lineBuffer_inputEffect]
    rfl

/-- A key that returns has stored to these indices of the line. -/
theorem stores_kbd {stores : List ℤ} (h : kbd env inpack k = some (.iret stores, k')) :
    stores = (k.con.lines k.con.termOnScreen).indices (decode env k.kbd inpack).2 := by
  cases kbd_cases h with
  | null hkey | clearLine hkey | architect hkey | switch hkey =>
    rw [hkey]
    rfl
  | char hkey hcon =>
    rw [hkey]
    exact stores_inputEffect _ _ _

/-- The counters stay in range, whatever happens. -/
theorem inRange_systemStep {e : SystemEvent} (hlines : ∀ t, (k.con.lines t).InRange)
    (h : systemStep env k e = some k') (t : TermId) : (k'.con.lines t).InRange := by
  -- one line is replaced by another one in range
  have hupdate : ∀ t₀ l, LineBuffer.InRange l →
      (Function.update k.con.lines t₀ l t).InRange := by
    intro t₀ l hl
    by_cases ht : t = t₀
    · subst ht
      rwa [Function.update_self]
    · rw [Function.update_of_ne ht]
      exact hlines t
  cases e with
  | output e =>
    rw [lines_outputStep h]
    exact hlines t
  | read s =>
    cases h
    rw [lines_setTerm]
    apply hupdate
    cases s with
    | resetCnt => exact LineBuffer.inRange_of_cnt_eq_zero rfl
    | armFlag | clearBuf | clearAfterCopy => exact hlines k.procs.currTerm
  | key inpack =>
    obtain ⟨⟨r, _⟩, hk, rfl⟩ := Option.map_eq_some_iff.mp h
    rw [lines_kbd hk]
    exact hupdate _ _ ((hlines _).press _ _)

/-- At boot the counters are zero. -/
theorem Entered.inRange {ram : BootRam} {r : ExecResult} (h : Entered ram r k) (t : TermId) :
    (k.con.lines t).InRange := by
  apply LineBuffer.inRange_of_cnt_eq_zero
  rw [h.con]
  rfl

/-- A key leaves the processes alone, activates a task, or halts. -/
theorem Represents.kbd {S : Forest} (hshell : ValidShell env.img) (hS : Represents k.procs S)
    (h : kbd env inpack k = some (r, k')) : ∃ S', Represents k'.procs S' := by
  cases kbd_cases h with
  | null | clearLine | architect | char => exact ⟨S, hS⟩
  | @halt flags _ _ hkey hroot hterm hhalt =>
    have hS' : Represents (({ k with kbd := flags }.sendEoi 1#32).disableIrq 0#32).procs S := hS
    exact hS'.halt hshell hhalt
  | @switch flags t hkey =>
    have hS' : Represents ({ k with kbd := flags }.sendEoi 1#32).procs S := hS
    exact ⟨S, hS'.switchTerm t⟩

theorem Represents.systemStep {S : Forest} {e : SystemEvent} (hshell : ValidShell env.img)
    (hS : Represents k.procs S) (h : systemStep env k e = some k') :
    ∃ S', Represents k'.procs S' := by
  cases e with
  | output e => exact hS.outputStep hshell h
  | read s =>
    cases h
    exact ⟨S, hS⟩
  | key inpack =>
    obtain ⟨⟨r, _⟩, hk, rfl⟩ := Option.map_eq_some_iff.mp h
    exact hS.kbd hshell hk

/-- In every state a run from boot reaches, a forest represents the processes, and the counters of
the lines are in range. -/
theorem reachable_systemStep {ram : BootRam} {r : ExecResult} {k₀ : Kernel} {es : List SystemEvent}
    (hshell : ValidShell env.img) (hentry : entry env ram = some (r, k₀))
    (hrun : exec (systemStep env) k₀ es = some k) :
    (∃ S, Represents k.procs S) ∧ ∀ t, (k.con.lines t).InRange := by
  have hspec := entry_spec hshell hentry
  refine exec_invariant (P := fun _ _ => True)
    (I := fun k => (∃ S, Represents k.procs S) ∧ ∀ t, (k.con.lines t).InRange) ?_
    ⟨⟨_, hspec.exact.toRepresents⟩, hspec.inRange⟩ (along_of_forall (fun _ _ => trivial) k₀) hrun
  rintro k e k' ⟨⟨S, hS⟩, hlines⟩ - hstep
  exact ⟨hS.systemStep hshell hstep, inRange_systemStep hlines hstep⟩

end

end Ece391
