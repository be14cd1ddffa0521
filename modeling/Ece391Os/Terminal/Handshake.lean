import Ece391Os.Terminal.Editor

/-!
# The handshake of `terminal_read` and the keyboard

Processes read lines on the three terminals while keys arrive between any two statements of
`terminal_read`, the timer ticks, and whatever else can happen happens.

* `readStep` runs `terminal_read` statement by statement. Each terminal has one reader at most, the
  process on top of its stack.
* `Reading` is the invariant of a terminal, by the statement its reader is at.
* `KeyAdmitted` is the condition under which a key does not break the line being read.
* `always_handshake`: along every run of such keys the counter and the indices stay in range, no
  read returns before its line has ended, and a line ended by Enter is what the read returns.
* `not_handshake_early_enter`: Enter between the first two statements of `terminal_read`.
-/

namespace Ece391

open Transition

/-! ## The reader -/

/-- The statement of `terminal_read` a process executes next. -/
inductive ReadPc
  | outside
  | resetCnt
  | clearBuf (i : Fin 128)
  | poll
  | copyOut
  deriving DecidableEq

/-- A call of `terminal_read`: where it is, and its argument `cnt`. -/
structure Reader where
  pc : ReadPc
  cnt : ℤ

/-- The kernel with a reader for each terminal, and the line typed on each terminal since its last
read has reset the counter. -/
structure ReadState where
  kernel : Kernel
  reader : TermId → Reader
  line : TermId → Line

/-- What can happen. -/
inductive ReadEvent
  /-- The running process does something else than reading, or the timer ticks, or the keyboard
  switches terminals. -/
  | output (e : OutputEvent)
  /-- The running process calls `terminal_read` and executes its first statement. -/
  | call (cnt : ℤ)
  /-- The running process executes the next statement of `terminal_read`. -/
  | step
  /-- A key interrupts it. -/
  | key (inpack : Byte)

/-- The bytes `terminal_read` copies to the user's buffer, and its return value. A negative count
copies more than there is memory. -/
def readResult (cnt : ℤ) (l : LineBuffer) : Option (List Byte × ℤ) :=
  -- the test of `terminal_read`: a line that is not full is copied whole
  if l.cnt ≤ cnt ∨ l.cnt < 128 then
    some ((List.range l.cnt.toNat).map fun (i : ℕ) => l.buf i, l.cnt)
  else if 0 ≤ cnt then some ((List.range cnt.toNat).map fun (i : ℕ) => l.buf i, cnt)
  else none

/-- The event is not an action of the running process. -/
def OutputEvent.isInterrupt : OutputEvent → Bool
  | .process (.tick _) | .process (.switchTerm _) => true
  | _ => false

/-- The statement after blanking cell `i`. -/
def ReadPc.afterClear (i : Fin 128) : ReadPc :=
  if h : i.val + 1 < 128 then .clearBuf ⟨i.val + 1, h⟩ else .poll

namespace ReadState

/-- Execute a statement of the reader of the running process. -/
def run (s : ReadState) (stmt : ReadStatement) (pc : ReadPc) : ReadState :=
  let t := s.kernel.procs.currTerm
  { s with
    kernel := { s.kernel with con := s.kernel.con.setTerm t stmt.run }
    reader := Function.update s.reader t { s.reader t with pc } }

/-- The next statement of the reader of the running process. -/
def next (s : ReadState) : Option ReadState :=
  let t := s.kernel.procs.currTerm
  match (s.reader t).pc with
  | .outside => none
  | .resetCnt =>
    some { s.run .resetCnt (.clearBuf 0) with line := Function.update s.line t Line.start }
  | .clearBuf i => some (s.run (.clearBuf i) (.afterClear i))
  | .poll =>
    if (s.kernel.con.terms t).terminalReadOn then some s
    else some { s with reader := Function.update s.reader t { s.reader t with pc := .copyOut } }
  | .copyOut =>
    (readResult (s.reader t).cnt (s.kernel.con.lines t)).map fun _ =>
      s.run .clearAfterCopy .outside

/-- Leave `terminal_read` without returning, when the process is halted. -/
def abandon (s : ReadState) (t : TermId) : KbdResult → TermId → Reader
  | .iret _ => s.reader
  | .halted _ => Function.update s.reader t { s.reader t with pc := .outside }

end ReadState

/-- One step. A process in `terminal_read` does nothing else. -/
def readStep (env : Env) (s : ReadState) : ReadEvent → Option ReadState
  | .output e =>
    -- the timer and the keyboard do not wait for the end of the read
    if e.isInterrupt ∨ (s.reader s.kernel.procs.currTerm).pc = .outside then
      (outputStep env s.kernel e).map fun kernel => { s with kernel }
    else none
  | .call cnt =>
    let t := s.kernel.procs.currTerm
    if (s.reader t).pc = .outside then
      some ({ s with reader := Function.update s.reader t ⟨.outside, cnt⟩ }.run .armFlag .resetCnt)
    else none
  | .step => s.next
  | .key inpack =>
    let t := s.kernel.con.termOnScreen
    (kbd env inpack s.kernel).map fun (r, kernel) =>
      { kernel
        reader := s.abandon s.kernel.procs.currTerm r
        line := Function.update s.line t ((s.line t).press (decode env s.kernel.kbd inpack).2
          (IsRootPid s.kernel.procs.currPid)) }

/-! ## The condition -/

/-- The key ends a line. -/
def EndsLine (root : Bool) (l : LineBuffer) : KeyAction → Prop
  | .clearLine => True
  | .interrupt => root = true
  | .char c => c = 255#8 ∨ c = 0x0A#8 ∨ c ≠ 0#8 ∧ c ≠ 0x08#8 ∧ 127 ≤ l.cnt
  | .null | .switch _ => False

/-- A key that a read at the statement `pc` can take: before the counter is reset, none that ends a
line, and from then on none that breaks the line. -/
def ReadPc.Admits (line : Line) (l : LineBuffer) (root : Bool) (action : KeyAction) : ReadPc → Prop
  | outside => True
  | resetCnt => ¬ EndsLine root l action
  | clearBuf i => Ece391.Admits i line l action
  | poll | copyOut => Ece391.Admits 128 line l action

/-- A key that the terminal on screen can take: Backspace not on the counter 128 of an old line, and
only keys that the read of the terminal can take. -/
def KeyAdmitted (env : Env) (inpack : Byte) (s : ReadState) : Prop :=
  let t := s.kernel.con.termOnScreen
  let l := s.kernel.con.lines t
  let action := (decode env s.kernel.kbd inpack).2
  (action = .char 0x08#8 → l.readOn = true → l.cnt ≠ 128) ∧
    (s.reader t).pc.Admits (s.line t) l (IsRootPid s.kernel.procs.currPid) action

/-- The keys among the events are admitted. -/
def Admitted (env : Env) (s : ReadState) : ReadEvent → Prop
  | .key inpack => KeyAdmitted env inpack s
  | _ => True

instance EndsLine.decidable (root : Bool) (l : LineBuffer) :
    ∀ action, Decidable (EndsLine root l action)
  | .clearLine => isTrue trivial
  | .interrupt => inferInstanceAs (Decidable (_ = _))
  | .char _ => inferInstanceAs (Decidable (_ ∨ _ ∨ _))
  | .null | .switch _ => isFalse not_false

instance ReadPc.Admits.decidable (line : Line) (l : LineBuffer) (root : Bool) (action : KeyAction) :
    ∀ pc : ReadPc, Decidable (pc.Admits line l root action)
  | .outside => isTrue trivial
  | .resetCnt => inferInstanceAs (Decidable (¬ EndsLine _ _ _))
  | .clearBuf i => inferInstanceAs (Decidable (Ece391.Admits i _ _ _))
  | .poll | .copyOut => inferInstanceAs (Decidable (Ece391.Admits 128 _ _ _))

instance (env : Env) (inpack : Byte) (s : ReadState) : Decidable (KeyAdmitted env inpack s) :=
  inferInstanceAs (Decidable (_ ∧ _))

instance Admitted.decidable (env : Env) (s : ReadState) : ∀ e, Decidable (Admitted env s e)
  | .key inpack => inferInstanceAs (Decidable (KeyAdmitted env inpack s))
  | .output _ | .call _ | .step => isTrue trivial

/-! ## The invariant -/

/-- A terminal whose reader is at the statement `pc`. -/
def Reading (pc : ReadPc) (line : Line) (l : LineBuffer) : Prop :=
  l.InRange ∧
    match pc with
    | .outside => True
    | .resetCnt => l.readOn = true
    | .clearBuf i => Tracks i line l
    | .poll => Tracks 128 line l
    | .copyOut => Tracks 128 line l ∧ line.ended ≠ none

/-- The invariant of the system. -/
def ReadState.Inv (s : ReadState) : Prop :=
  ∀ t, Reading (s.reader t).pc (s.line t) (s.kernel.con.lines t)

/-- Terminals that one terminal has been changed of. -/
theorem reading_update {reader : TermId → Reader} {line : TermId → Line}
    {lines : TermId → LineBuffer} (h : ∀ t, Reading (reader t).pc (line t) (lines t))
    (t₀ : TermId) (rd : Reader) {ln : Line} {l : LineBuffer} (h₀ : Reading rd.pc ln l)
    (t : TermId) :
    Reading (Function.update reader t₀ rd t).pc (Function.update line t₀ ln t)
      (Function.update lines t₀ l t) := by
  -- the terminal that has been changed, or another one
  by_cases ht : t = t₀
  · subst ht
    simpa using h₀
  · simpa [ht] using h t

namespace Reading

variable {pc : ReadPc} {line : Line} {l : LineBuffer} {action : KeyAction} {root : Bool}

/-- Before the reset, a key that does not end a line leaves the flag set. -/
theorem readOn_press (hl : l.InRange) (hread : l.readOn = true) (hend : ¬ EndsLine root l action) :
    (l.press action root).readOn = true := by
  obtain ⟨h0, h1⟩ := hl
  have hfull : ∀ l' : LineBuffer, l'.readOn = true → l'.cnt ≠ bufSize → l'.full.readOn = true := by
    intro l' hl' hne
    rw [LineBuffer.full, if_neg hne]
    exact hl'
  simp only [bufSize] at h1
  cases action with
  | null | switch => exact hread
  | clearLine => exact absurd trivial hend
  | interrupt =>
    rw [LineBuffer.press, if_neg (by exact hend)]
    exact hread
  | char c =>
    simp only [EndsLine, not_or, not_and, not_le] at hend
    obtain ⟨h255, henter, hroom⟩ := hend
    rw [LineBuffer.press, LineBuffer.input, if_neg h255, if_neg henter]
    split_ifs with haccept hback
    · -- Backspace: the counter does not grow
      refine hfull _ ?_ ?_
      · rw [LineBuffer.pop]
        split_ifs <;> exact hread
      · rw [LineBuffer.pop]
        split_ifs <;> simp only [bufSize] <;> omega
    · -- a character that does not fill the buffer
      have hlt := hroom haccept.1 hback
      have hle : l.cnt ≤ bufSize - 1 := by
        simp only [bufSize]
        omega
      refine hfull _ ?_ ?_
      · rw [LineBuffer.push, if_pos hle]
        exact hread
      · rw [LineBuffer.push, if_pos hle]
        simp only [bufSize]
        omega
    · exact hread

/-- A key leaves an ended line ended. -/
theorem ended_press (hended : line.ended ≠ none) : (line.press action root).ended ≠ none := by
  rw [Line.press.eq_def, if_pos (Option.isSome_iff_ne_none.mpr hended)]
  exact hended

end Reading

/-- An admitted key keeps the invariant of the terminal on screen. -/
theorem ReadState.Inv.key {env : Env} {inpack : Byte} {s : ReadState} (h : s.Inv)
    (hkey : KeyAdmitted env inpack s) :
    Reading (s.reader s.kernel.con.termOnScreen).pc
      ((s.line s.kernel.con.termOnScreen).press (decode env s.kernel.kbd inpack).2
        (IsRootPid s.kernel.procs.currPid))
      ((s.kernel.con.lines s.kernel.con.termOnScreen).press (decode env s.kernel.kbd inpack).2
        (IsRootPid s.kernel.procs.currPid)) := by
  obtain ⟨-, hkey⟩ := hkey
  obtain ⟨hrange, hreading⟩ := h s.kernel.con.termOnScreen
  refine ⟨hrange.press _ _, ?_⟩
  cases hpc : (s.reader s.kernel.con.termOnScreen).pc with
  | outside => trivial
  | resetCnt =>
    rw [hpc] at hkey hreading
    -- the counter is that of an old line, and the flag must survive
    exact Reading.readOn_press hrange hreading hkey
  | clearBuf i =>
    rw [hpc] at hkey hreading
    -- the cells from `i` on are still to be blanked
    exact hreading.press hkey _
  | poll =>
    rw [hpc] at hkey hreading
    exact hreading.press hkey _
  | copyOut =>
    rw [hpc] at hkey hreading
    exact ⟨hreading.1.press hkey _, Reading.ended_press hreading.2⟩

namespace ReadState.Inv

variable {env : Env} {s s' : ReadState}

/-- A reader moves. -/
theorem setReader (h : s.Inv) (t₀ : TermId) (rd : Reader)
    (h₀ : Reading rd.pc (s.line t₀) (s.kernel.con.lines t₀)) :
    ReadState.Inv { s with reader := Function.update s.reader t₀ rd } := by
  intro t
  have hupdate := reading_update h t₀ rd h₀ t
  rw [Function.update_eq_self, Function.update_eq_self] at hupdate
  exact hupdate

/-- A statement of the reader of the running process, and what it does to the line. -/
theorem run (h : s.Inv) {stmt : ReadStatement} {pc : ReadPc} {ln : Line}
    (h₀ : Reading pc ln (stmt.run (s.kernel.con.terms s.kernel.procs.currTerm)).lineBuffer) :
    ReadState.Inv { s.run stmt pc with
      line := Function.update s.line s.kernel.procs.currTerm ln } := by
  intro t
  have hupdate := reading_update h s.kernel.procs.currTerm
    { s.reader s.kernel.procs.currTerm with pc } h₀ t
  simp only [ReadState.run, lines_setTerm]
  exact hupdate

/-- A statement that leaves the line as it is. -/
theorem run_self (h : s.Inv) {stmt : ReadStatement} {pc : ReadPc}
    (h₀ : Reading pc (s.line s.kernel.procs.currTerm)
      (stmt.run (s.kernel.con.terms s.kernel.procs.currTerm)).lineBuffer) :
    (s.run stmt pc).Inv := by
  have hrun := h.run h₀
  rw [Function.update_eq_self] at hrun
  exact hrun

/-- Every statement of `terminal_read` keeps the invariant. -/
theorem next (h : s.Inv) (hnext : s.next = some s') : s'.Inv := by
  obtain ⟨hrange, hreading⟩ := h s.kernel.procs.currTerm
  rw [ReadState.next] at hnext
  cases hpc : (s.reader s.kernel.procs.currTerm).pc with
  | outside =>
    simp only [hpc] at hnext
    cases hnext
  | resetCnt =>
    simp only [hpc] at hnext hreading
    cases hnext
    refine h.run ⟨LineBuffer.inRange_of_cnt_eq_zero rfl, ?_⟩
    -- the counter is 0, and no cell of the old line counts
    exact Tracks.start rfl hreading
  | clearBuf i =>
    simp only [hpc] at hnext hreading
    cases hnext
    refine h.run_self ⟨hrange, ?_⟩
    have hclear := hreading.clearBuf
    rw [ReadPc.afterClear]
    split_ifs with hi
    · exact hclear
    · -- the last cell has been blanked
      have hlast : i.val + 1 = 128 := by omega
      rw [hlast] at hclear
      exact hclear
  | poll =>
    simp only [hpc] at hnext hreading
    split_ifs at hnext with hread
    · cases hnext
      exact h
    · cases hnext
      -- the flag is clear, so the line has ended
      have hended : (s.line s.kernel.procs.currTerm).ended ≠ none := fun hopen =>
        hread (hreading.readOn_of_open hopen)
      exact h.setReader _ _ ⟨hrange, hreading, hended⟩
  | copyOut =>
    simp only [hpc] at hnext
    obtain ⟨_, -, rfl⟩ := Option.map_eq_some_iff.mp hnext
    exact h.run_self ⟨hrange, trivial⟩

/-- Every step of the system keeps the invariant, if its keys are admitted. -/
theorem readStep {e : ReadEvent} (h : s.Inv) (hallowed : Admitted env s e)
    (hstep : readStep env s e = some s') : s'.Inv := by
  cases e with
  | output e =>
    simp only [Ece391.readStep] at hstep
    split_ifs at hstep
    obtain ⟨k', hk', rfl⟩ := Option.map_eq_some_iff.mp hstep
    intro t
    -- no output touches a line
    have hlines := lines_outputStep hk'
    simp only [hlines]
    exact h t
  | call cnt =>
    simp only [Ece391.readStep] at hstep
    split_ifs at hstep
    cases hstep
    have hrange := (h s.kernel.procs.currTerm).1
    have hcall := h.setReader s.kernel.procs.currTerm ⟨.outside, cnt⟩ ⟨hrange, trivial⟩
    exact hcall.run_self ⟨hrange, rfl⟩
  | step => exact h.next hstep
  | key inpack =>
    obtain ⟨⟨r, k'⟩, hk', rfl⟩ := Option.map_eq_some_iff.mp hstep
    -- the key acts on the terminal on screen, whether or not it halts the running process
    have hpressed : ReadState.Inv { s with
        kernel := k'
        line := Function.update s.line s.kernel.con.termOnScreen
          ((s.line s.kernel.con.termOnScreen).press (decode env s.kernel.kbd inpack).2
            (IsRootPid s.kernel.procs.currPid)) } := by
      intro t
      have hupdate := reading_update h s.kernel.con.termOnScreen
        (s.reader s.kernel.con.termOnScreen) (h.key hallowed) t
      rw [Function.update_eq_self] at hupdate
      simp only [lines_kbd hk']
      exact hupdate
    cases r with
    | iret stores => exact hpressed
    | halted r => exact hpressed.setReader _ _ ⟨(hpressed _).1, trivial⟩

end ReadState.Inv

/-! ## The handshake -/

/-- What the handshake promises of an event: a key stores inside `terminal_buf`, and a read that
returns does so after its line has ended, with exactly the line when Enter has ended it. -/
structure Handshake (env : Env) (s : ReadState) (e : ReadEvent) : Prop where
  indices : ∀ inpack stores k', e = .key inpack →
    kbd env inpack s.kernel = some (.iret stores, k') →
    ∀ i ∈ stores, 0 ≤ i ∧ i ≤ 127
  ended : e = .step → (s.reader s.kernel.procs.currTerm).pc = .copyOut →
    (s.line s.kernel.procs.currTerm).ended ≠ none
  line : e = .step → (s.reader s.kernel.procs.currTerm).pc = .copyOut →
    (s.line s.kernel.procs.currTerm).ended = some .enter →
    readResult (s.reader s.kernel.procs.currTerm).cnt (s.kernel.con.lines s.kernel.procs.currTerm) =
      some ((s.line s.kernel.procs.currTerm).typed,
        ((s.line s.kernel.procs.currTerm).typed.length : ℤ))

/-- The line in the buffer is what a read returns. -/
theorem Tracks.readResult {n : ℕ} {line : Line} {l : LineBuffer} (h : Tracks n line l)
    (hkept : line.Kept) (cnt : ℤ) :
    Ece391.readResult cnt l = some (line.typed, (line.typed.length : ℤ)) := by
  have hcnt := h.cnt hkept
  have hshort := h.short hkept
  rw [Ece391.readResult, if_pos (Or.inr (by omega)), hcnt, Int.toNat_natCast]
  -- the cells of the buffer below the counter are what has been typed
  have hbytes : (List.range line.typed.length).map (fun (i : ℕ) => l.buf i) = line.typed := by
    refine List.ext_getElem (by simp) fun j hj hj' => ?_
    rw [List.getElem_map, List.getElem_range]
    exact h.buf hkept j hj'
  rw [hbytes]

/-- Inside `terminal_buf`, but for Backspace on a full line. -/
theorem LineBuffer.InRange.indices {l : LineBuffer} (h : l.InRange) {action : KeyAction}
    (hback : action = .char 0x08#8 → l.readOn = true → l.cnt ≠ 128) {i : ℤ}
    (hi : i ∈ l.indices action) : 0 ≤ i ∧ i ≤ 127 := by
  obtain ⟨h0, h1⟩ := h
  simp only [bufSize] at h1
  cases action with
  | null | interrupt | switch => exact (List.not_mem_nil hi).elim
  | clearLine =>
    obtain ⟨j, hj, rfl⟩ := List.mem_map.mp hi
    rw [List.mem_range] at hj
    omega
  | char c =>
    rw [LineBuffer.indices] at hi
    split_ifs at hi with hoff hc hzero hroom
    · exact (List.not_mem_nil hi).elim
    · exact (List.not_mem_nil hi).elim
    · obtain rfl := List.mem_singleton.mp hi
      have hread : l.readOn = true := by
        simp only [not_or, Bool.not_eq_false] at hoff
        exact hoff.2.2.2
      -- Backspace stores at the counter before it counts down, and so behind a full buffer
      have hne := hback (by rw [hc]) hread
      omega
    · obtain rfl := List.mem_singleton.mp hi
      simp only [bufSize] at hroom
      omega
    · exact (List.not_mem_nil hi).elim

/-- In a state of the invariant, an admitted event meets the promise. -/
theorem ReadState.Inv.handshake {env : Env} {s : ReadState} {e : ReadEvent} (h : s.Inv)
    (hallowed : Admitted env s e) : Handshake env s e where
  indices inpack stores k' he hk' i hi := by
    subst he
    rw [stores_kbd hk'] at hi
    exact (h _).1.indices hallowed.1 hi
  ended _ hpc := by
    have hreading := (h s.kernel.procs.currTerm).2
    rw [hpc] at hreading
    exact hreading.2
  line _ hpc henter := by
    have hreading := (h s.kernel.procs.currTerm).2
    rw [hpc] at hreading
    exact hreading.1.readResult (Or.inr henter) _

/-- The system that has booted: no process reads. -/
def ReadState.boot (k : Kernel) : ReadState where
  kernel := k
  reader _ := ⟨.outside, 0⟩
  line _ := Line.start

/-- Along every run from boot whose keys are admitted, the counters stay between 0 and 128, the keys
store inside `terminal_buf`, no read returns before its line has ended, and a line that Enter has
ended is what the read returns. -/
theorem always_handshake {env : Env} {ram : BootRam} {r : ExecResult} {k₀ : Kernel}
    {es : List ReadEvent} (hshell : ValidShell env.img) (hentry : entry env ram = some (r, k₀))
    (hkeys : Along (readStep env) (Admitted env) (.boot k₀) es) :
    Always (readStep env) (fun s => ∀ t, (s.kernel.con.lines t).InRange) (.boot k₀) es ∧
      Along (readStep env) (Handshake env) (.boot k₀) es := by
  have hboot : ReadState.Inv (.boot k₀) := fun t => by
    refine ⟨LineBuffer.inRange_of_cnt_eq_zero ?_, trivial⟩
    change (k₀.con.lines t).cnt = 0
    rw [(entry_spec hshell hentry).con]
    rfl
  have hstep : ∀ s e s', ReadState.Inv s → Admitted env s e → readStep env s e = some s' →
      s'.Inv := fun s e s' hs hallowed hs' => hs.readStep hallowed hs'
  refine ⟨?_, along_of_invariant hstep (fun s e hs hallowed => hs.handshake hallowed) hboot hkeys⟩
  intro fs hfs s hs t
  exact (always_of_invariant hstep hboot hkeys fs hfs s hs t).1

/-- A read of the line `ab`, with the first character typed while the buffer is being blanked. -/
theorem always_handshake_sample :
    ∃ r k₀, entry sampleEnv zeroRam = some (r, k₀) ∧
      Always (readStep sampleEnv) (fun s => ∀ t, (s.kernel.con.lines t).InRange) (.boot k₀)
        ([.call 128] ++ List.replicate 4 .step ++ [.key 30#8] ++ List.replicate 125 .step ++
          [.key 48#8, .key 28#8, .step, .step]) ∧
      Along (readStep sampleEnv) (Handshake sampleEnv) (.boot k₀)
        ([.call 128] ++ List.replicate 4 .step ++ [.key 30#8] ++ List.replicate 125 .step ++
          [.key 48#8, .key 28#8, .step, .step]) := by
  have hrun : (entry sampleEnv zeroRam).any fun x =>
      decide (Along (readStep sampleEnv) (Admitted sampleEnv) (.boot x.2)
        ([.call 128] ++ List.replicate 4 .step ++ [.key 30#8] ++ List.replicate 125 .step ++
          [.key 48#8, .key 28#8, .step, .step])) := by
    decide +kernel
  simp only [Option.any_eq_true, decide_eq_true_eq] at hrun
  obtain ⟨⟨r, k₀⟩, hentry, hkeys⟩ := hrun
  exact ⟨r, k₀, hentry, always_handshake validShell_sampleImage hentry hkeys⟩

/-- Enter between the first two statements of `terminal_read`: the read returns without a line. -/
theorem not_handshake_early_enter :
    ∃ r k₀ s s', entry sampleEnv zeroRam = some (r, k₀) ∧
      exec (readStep sampleEnv) (.boot k₀) ([.call 128, .key 28#8] ++ List.replicate 130 .step) =
        some s ∧
      (s.reader s.kernel.procs.currTerm).pc = .copyOut ∧ readStep sampleEnv s .step = some s' ∧
      (s.line s.kernel.procs.currTerm).ended = none ∧ ¬ Handshake sampleEnv s .step := by
  have hrun : (entry sampleEnv zeroRam).any fun x => (exec (readStep sampleEnv) (.boot x.2)
      ([.call 128, .key 28#8] ++ List.replicate 130 .step)).any fun s =>
      (readStep sampleEnv s .step).any fun _ => decide (
        (s.reader s.kernel.procs.currTerm).pc = .copyOut ∧
        (s.line s.kernel.procs.currTerm).ended = none) := by
    decide +kernel
  simp only [Option.any_eq_true, decide_eq_true_eq] at hrun
  obtain ⟨⟨r, k₀⟩, hentry, s, hs, s', hs', hpc, hopen⟩ := hrun
  exact ⟨r, k₀, s, s', hentry, hs, hpc, hs', hopen, fun h => h.ended rfl hpc hopen⟩

end Ece391
