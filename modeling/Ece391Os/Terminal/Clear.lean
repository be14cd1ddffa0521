import Ece391Os.Terminal.Line

/-!
# The built-in `clear`

`execute` of a command whose name begins with `clear` blanks the page at `VIDEO`, which is the page
of the running process's terminal, and calls `reset_cursor`, which resets the cursor of the terminal
on screen.

* `ClearsOwn`: the running process's screen is empty, and the other terminals are as they were; on
  these, Backspace never moves a cursor behind its characters out of the screen.
* `clearsOwn_iff`: a call does this exactly if the command fits the buffers of `execute`, and the
  running process's terminal is on screen or both cursors are at the origin.
-/

namespace Ece391

open Transition

/-! ## Later Backspaces -/

/-- The typed characters stand between the origin of the screen and the cursor. -/
structure TypedBehind (term : Term) : Prop where
  cnt : 0 ≤ term.terminalCnt ∧ term.terminalCnt ≤ bufSize
  row : 0 ≤ term.screenY
  column : 0 ≤ term.screenX
  cursor : term.terminalCnt ≤ 80 * term.screenY + term.screenX

/-- The terminal on screen after `n` Backspaces. -/
def backspaces (hidden : Bool) (n : ℕ) (term : Term) : Term :=
  (fun term => (inputEffect hidden 0x08#8 term).term)^[n] term

/-- Backspace takes one character away, and moves the cursor back by one. -/
theorem TypedBehind.backspace {term : Term} (h : TypedBehind term) (hidden : Bool) :
    TypedBehind (inputEffect hidden 0x08#8 term).term := by
  obtain ⟨⟨h0, hle⟩, hrow, hcolumn, hcursor⟩ := h
  rw [inputEffect, if_neg (by decide)]
  split_ifs with hread
  · -- the line is not full afterwards
    have hnotFull : (backspaceKey term).term.terminalCnt ≠ bufSize := by
      rw [backspaceKey, bufSize]
      split_ifs <;> simp only [bufSize] at hle ⊢ <;> omega
    rw [keyEffect, if_neg (by decide), if_pos rfl, bufferFull, if_neg hnotFull, backspaceKey]
    split_ifs with hcnt
    · exact ⟨⟨h0, hle⟩, hrow, hcolumn, hcursor⟩
    · refine ⟨⟨?_, ?_⟩, ?_, ?_, ?_⟩ <;> simp only [numCols] <;> (try split_ifs) <;> omega
  · exact ⟨⟨h0, hle⟩, hrow, hcolumn, hcursor⟩

theorem TypedBehind.backspaces {term : Term} (h : TypedBehind term) (hidden : Bool) (n : ℕ) :
    TypedBehind (backspaces hidden n term) := by
  induction n generalizing term with
  | zero => exact h
  | succ n ih => exact ih (h.backspace hidden)

/-! ## The call -/

/-- The cursor of a terminal is at the origin. -/
def Term.AtOrigin (term : Term) : Prop := term.screenX = 0 ∧ term.screenY = 0

theorem Term.AtOrigin.reset {term : Term} (h : term.AtOrigin) :
    { term with screenX := 0, screenY := 0 } = term := by
  obtain ⟨hx, hy⟩ := h
  cases term
  cases hx
  cases hy
  rfl

/-- From `k` to `k'` the screen of the running process has been cleared, and no other terminal has
changed. -/
structure ClearsOwn (k k' : Kernel) : Prop where
  blank : ∀ o < 2 * (numRows * numCols), k'.con.vram (videoPage k.procs.currTerm) o =
    if o % 2 = 0 then 0x20#8 else attrib
  cursor : (k'.con.terms k.procs.currTerm).AtOrigin
  terms : ∀ t, t ≠ k.procs.currTerm → k'.con.terms t = k.con.terms t
  pages : ∀ t, t ≠ k.procs.currTerm → k'.con.vram (videoPage t) = k.con.vram (videoPage t)
  backspaces : ∀ t, t ≠ k.procs.currTerm → TypedBehind (k.con.terms t) →
    ∀ hidden n, 0 ≤ (backspaces hidden n (k'.con.terms t)).screenX

section

variable {env : Env} {command stack : Buffer} {cmd : Command} {k k' : Kernel} {S : Forest}
  {r : ExecResult}

/-- The name of a command that begins with `clear` does. -/
theorem strncmp_filename_clear (hcmd : parseCommand command = some cmd)
    (hclear : strncmp (cString "clear" fun _ => 0#8) command 5 = 0) :
    5 ≤ cmd.cmdLeng ∧ strncmp (cString "clear" fun _ => 0#8) cmd.filename 5 = 0 := by
  obtain ⟨hname, -, hfilename, -⟩ := parseCommand_eq_some hcmd
  obtain ⟨-, hend, -⟩ := Buffer.scan_eq_some.mp hname
  rw [strncmp_eq_zero_iff] at hclear ⊢
  have hword : stringOf (cString "clear" fun _ => 0#8) 5 = ascii "clear" := by decide +kernel
  have hletters : (ascii "clear").length = 5 ∧ ∀ b ∈ ascii "clear", endsName b = false := by
    decide +kernel
  -- none of the five bytes is a NUL, so the string has all of them
  have hbytes : command.bytesOf 0 (ascii "clear").length = ascii "clear" := by
    refine ((List.takeWhile_prefix fun b => b != 0#8).eq_of_length ?_).symm.trans
      (hclear.symm.trans hword)
    rw [hletters.1, ← stringOf, ← hclear, hword, hletters.1, Buffer.length_bytesOf]
  have hlong : 5 ≤ cmd.cmdLeng := by
    by_contra hlt
    have hletter := (Buffer.bytesOf_eq_iff _).mp hbytes cmd.cmdLeng (by omega)
    rw [Nat.zero_add] at hletter
    rw [hletter, hletters.2 _ (List.getElem_mem _)] at hend
    exact absurd hend Bool.false_ne_true
  refine ⟨hlong, ?_⟩
  rw [hclear, stringOf, stringOf, hfilename, Buffer.bytesOf_overwrite _ _ _ _ hlong]

/-- What `clear` leaves. -/
theorem execute_clear (hcmd : parseCommand command = some cmd)
    (hfind : findProgram env.img cmd stack = .error .clear) :
    execute env command stack k =
      some (.exit .clear, (k.disableIrq 0#32).clearVideo.enableIrq 0#32) := by
  simp only [execute, hcmd, hfind, exitEarly, Option.bind_eq_bind, Option.bind_some, if_true,
    Option.map_some]

/-- The page that is blanked is that of the terminal of the running process; the cursor is that of
the terminal on screen. -/
theorem clearsOwn_clearVideo_iff (hS : Represents k.procs S) (hk : k'.con = k.clearVideo.con) :
    ClearsOwn k k' ↔ k.con.termOnScreen = k.procs.currTerm ∨
      (k.con.terms k.procs.currTerm).AtOrigin ∧ (k.con.terms k.con.termOnScreen).AtOrigin := by
  have hreset : k'.con.terms = k.con.resetCursor.terms := by
    rw [hk]
    rfl
  have hvisible : k'.con.terms k.con.termOnScreen =
      { k.con.terms k.con.termOnScreen with screenX := 0, screenY := 0 } := by
    rw [hreset, Console.resetCursor, Console.terms_setTerm_self]
  have hother : ∀ t, t ≠ k.con.termOnScreen → k'.con.terms t = k.con.terms t := by
    intro t ht
    rw [hreset, Console.resetCursor, Console.terms_setTerm_of_ne _ _ ht]
  have hvram : k'.con.vram = Function.update k.con.vram (videoPage k.procs.currTerm)
      (clearPage (k.con.vram (videoPage k.procs.currTerm))) := by
    rw [hk, ← hS.videoMapping]
    rfl
  constructor
  · -- the caller is hidden, so only the other cursor has been reset
    intro h
    rw [or_iff_not_imp_left]
    intro hhidden
    constructor
    · rw [← hother _ (Ne.symm hhidden)]
      exact h.cursor
    · rw [← h.terms _ hhidden, hvisible]
      exact ⟨rfl, rfl⟩
  · intro hcond
    have hterms : ∀ t, t ≠ k.procs.currTerm → k'.con.terms t = k.con.terms t := by
      intro t ht
      by_cases hscreen : t = k.con.termOnScreen
      · -- the cursor that has been reset was at the origin
        have horigin := (hcond.resolve_left fun heq => ht (hscreen.trans heq)).2
        rw [hscreen, hvisible, horigin.reset]
      · exact hother t hscreen
    refine ⟨fun o ho => ?_, ?_, hterms, fun t ht => ?_, fun t ht htyped hidden n => ?_⟩
    · rw [hvram, Function.update_self, clearPage_apply, if_pos (by exact ho)]
    · by_cases hscreen : k.procs.currTerm = k.con.termOnScreen
      · rw [hscreen, hvisible]
        exact ⟨rfl, rfl⟩
      · rw [hother _ hscreen]
        exact (hcond.resolve_left fun heq => hscreen heq.symm).1
    · -- terminals have different pages
      rw [hvram, Function.update_of_ne fun hpage => ht (videoPage_injective hpage)]
    · rw [hterms t ht]
      exact (htyped.backspaces hidden n).column

end

/-- In every reachable state, a command that begins with `clear` clears the screen of its process
and changes no other terminal exactly if it fits the buffers of `execute`, and the terminal is on
screen or both its cursor and that on screen are at the origin. -/
theorem clearsOwn_iff {env : Env} {ram : BootRam} {r : ExecResult} {k₀ k : Kernel}
    {es : List SystemEvent} {command stack : Buffer}
    (hshell : ValidShell env.img) (hentry : entry env ram = some (r, k₀))
    (hrun : exec (systemStep env) k₀ es = some k)
    (hclear : strncmp (cString "clear" fun _ => 0#8) command 5 = 0) :
    (∃ r k', execute env command stack k = some (r, k') ∧ ClearsOwn k k') ↔
      ShortCommand command ∧ (k.con.termOnScreen = k.procs.currTerm ∨
        (k.con.terms k.procs.currTerm).AtOrigin ∧
          (k.con.terms k.con.termOnScreen).AtOrigin) := by
  obtain ⟨⟨S, hS⟩, -⟩ := reachable_systemStep hshell hentry hrun
  -- the masking around the call changes no screen
  have hcall : ClearsOwn k ((k.disableIrq 0#32).clearVideo.enableIrq 0#32) ↔ _ :=
    clearsOwn_clearVideo_iff hS rfl
  have hexec : ShortCommand command → execute env command stack k =
      some (.exit .clear, (k.disableIrq 0#32).clearVideo.enableIrq 0#32) := by
    intro hshort
    obtain ⟨cmd, hcmd⟩ := hshort.exists_parse
    obtain ⟨hlong, hname⟩ := strncmp_filename_clear hcmd hclear
    have hle := cmd.cmdLeng_le
    exact execute_clear hcmd (by rw [findProgram, if_neg (by omega), if_pos hname])
  constructor
  · rintro ⟨r, k', hx, h⟩
    have hshort := shortCommand_of_execute hx
    rw [hexec hshort] at hx
    cases hx
    exact ⟨hshort, hcall.mp h⟩
  · rintro ⟨hshort, hcond⟩
    exact ⟨_, _, hexec hshort, hcall.mpr hcond⟩

/-- `clear` behind a line of output, on the terminal on screen. -/
theorem clearsOwn_sample :
    ∃ r k₀ k, entry sampleEnv zeroRam = some (r, k₀) ∧
      exec (systemStep sampleEnv) k₀ [.output (.write (ascii "ready\n"))] = some k ∧
      ∃ r k', execute sampleEnv (commandLine "clear") (fun _ => 0#8) k = some (r, k') ∧
        ClearsOwn k k' := by
  have hrun : (entry sampleEnv zeroRam).any fun x =>
      (exec (systemStep sampleEnv) x.2 [.output (.write (ascii "ready\n"))]).any fun k =>
        decide ((parseCommand (commandLine "clear")).isSome = true ∧
          k.con.termOnScreen = k.procs.currTerm) := by
    decide +kernel
  simp only [Option.any_eq_true, decide_eq_true_eq] at hrun
  obtain ⟨⟨r, k₀⟩, hboot, k, hk, hparse, hscreen⟩ := hrun
  refine ⟨r, k₀, k, hboot, hk, ?_⟩
  exact (clearsOwn_iff validShell_sampleImage hboot hk (by decide +kernel)).mpr
    ⟨parseCommand_isSome_iff.mp hparse, Or.inl hscreen⟩

/-- Terminal 0 has printed a line; on terminal 1, which is on screen, the letter `a` has been typed
behind the prompt; the process of terminal 0 runs again. -/
def typedElsewhere : List SystemEvent :=
  [.output (.write (ascii "ready\n")), .output (.process (.switchTerm 1)),
    .output (.process (.tick 0x1000#32)), .output (.process (.tick 0x1000#32)),
    .output (.write (ascii "391OS> ")), .read .armFlag, .key 0x1E#8,
    .output (.process (.tick 0x2000#32)), .output (.process (.tick 0x2000#32))]

/-- `clear` on terminal 0 leaves its own cursor on row 1 and moves that of terminal 1 to the origin,
where the next Backspace moves it to column -1 and faults. -/
theorem not_clearsOwn_hidden :
    ∃ r k₀ k k', entry sampleEnv zeroRam = some (r, k₀) ∧
      exec (systemStep sampleEnv) k₀ typedElsewhere = some k ∧
      k.procs.currTerm = 0 ∧ k.con.termOnScreen = 1 ∧ TypedBehind (k.con.terms 1) ∧
      execute sampleEnv (commandLine "clear") (fun _ => 0#8) k = some (.exit .clear, k') ∧
      (k'.con.terms 0).screenY = 1 ∧ (k'.con.terms 1).screenX = 0 ∧
      (backspaces false 1 (k'.con.terms 1)).screenX = -1 ∧ kbd sampleEnv 0x0E#8 k' = none ∧
      ¬ ∃ r k', execute sampleEnv (commandLine "clear") (fun _ => 0#8) k = some (r, k') ∧
        ClearsOwn k k' := by
  have hrun : (entry sampleEnv zeroRam).any fun x =>
      (exec (systemStep sampleEnv) x.2 typedElsewhere).any fun k =>
        (execute sampleEnv (commandLine "clear") (fun _ => 0#8) k).any fun y =>
          decide (k.procs.currTerm = 0 ∧ k.con.termOnScreen = 1 ∧
            ((k.con.terms 1).terminalCnt, (k.con.terms 1).screenX, (k.con.terms 1).screenY) =
              (1, 8, 0) ∧ y.1 = .exit .clear ∧ (y.2.con.terms 0).screenY = 1 ∧
            (y.2.con.terms 1).screenX = 0 ∧
            (backspaces false 1 (y.2.con.terms 1)).screenX = -1 ∧
            (kbd sampleEnv 0x0E#8 y.2).isNone) := by
    decide +kernel
  simp only [Option.any_eq_true, decide_eq_true_eq, Prod.mk.injEq,
    Option.isNone_iff_eq_none] at hrun
  obtain ⟨⟨r, k₀⟩, hboot, k, hk, ⟨_, k'⟩, hx, hterm, hscreen, ⟨hcnt, hcolumn, hrow⟩, rfl, hrow0,
    hcolumn1, hback, hfault⟩ := hrun
  have htyped : TypedBehind (k.con.terms 1) := by
    constructor <;> simp only [hcnt, hcolumn, hrow] <;> decide
  refine ⟨r, k₀, k, k', hboot, hk, hterm, hscreen, htyped, hx, hrow0, hcolumn1, hback, hfault, ?_⟩
  rintro ⟨r', k'', hx', h⟩
  cases hx.symm.trans hx'
  -- the row of its own cursor is not 0
  have hzero := h.cursor.2
  rw [hterm, hrow0] at hzero
  exact absurd hzero (by decide)

end Ece391
