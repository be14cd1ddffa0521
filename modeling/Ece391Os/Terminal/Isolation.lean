import Ece391Os.Lib.Transition
import Ece391Os.Process.Boot

/-!
# Isolation of terminal output

The processes of the three terminals write, launch and leave programs, and are switched, in any
order. What appears on a terminal is what its own processes print, as if nobody else did.

* `outputStep` adds `terminal_write` to the steps of the processes.
* `message` is what an event prints, and `outputOf t` what a run prints on terminal `t`.
* `screen_refines`: each screen simulates its own output; the other terminals' events do not reach
  it, since the page mapped at `VIDEO` is that of the running process's terminal.
* `output_isolation`: the mapping and the screens after any run from boot.
-/

namespace Ece391

open Transition

/-- What can happen to the output: an event of the processes, or a `terminal_write` of the running
process. -/
inductive OutputEvent
  | process (e : ProcessEvent)
  | write (bytes : List Byte)

/-- One atomic step. A byte that would be stored outside the terminal's page is a page fault. -/
def outputStep (env : Env) (k : Kernel) : OutputEvent → Option Kernel
  | .process e => processStep env k e
  | .write bytes => k.puts bytes

/-- What `execute` prints. -/
def ExecResult.message : ExecResult → List Byte
  | .exit e => e.message
  | _ => []

/-- What an event prints on the terminal of the running process. -/
def OutputEvent.message (env : Env) (k : Kernel) : OutputEvent → List Byte
  | .process (.execute command stack) =>
    (execute env command stack k).elim [] fun (r, _) => r.message
  | .process (.halt _ _) => if IsRootPid k.procs.currPid then architect else []
  | .process (.tick _) | .process (.switchTerm _) => []
  | .write bytes => bytes

/-- What an event prints on terminal `t`. -/
def printedOn (env : Env) (t : TermId) (k : Kernel) (e : OutputEvent) : List Byte :=
  if k.procs.currTerm = t then e.message env k else []

/-- What a run prints on terminal `t`. -/
def outputOf (env : Env) (t : TermId) : Kernel → List OutputEvent → List Byte :=
  trace (outputStep env) (printedOn env t)

/-- The event is the built-in command `clear`, which launches nothing and erases a screen. -/
def IsClear (img : FsImage) : OutputEvent → Prop
  | .process (.execute command stack) =>
    ∃ cmd, parseCommand command = some cmd ∧ findProgram img cmd stack = .error .clear
  | _ => False

/-- The screen of terminal `t` on its own video page. -/
def Console.screen (con : Console) (t : TermId) : Screen := con.screenAt t (videoPage t)

section

variable {con con' : Console} {t t' : TermId} {l : List Byte} {env : Env}
  {command stack : Buffer} {k k' : Kernel} {r : ExecResult} {status : Byte} {hr : HaltResult}

/-- A change of `terms[t].pid` does not show. -/
@[simp]
theorem screen_setTerm_pid (con : Console) (t t' : TermId) (i : Pid) :
    (con.setTerm t fun term => { term with pid := i }).screen t' = con.screen t' := by
  by_cases h : t' = t <;> simp [Console.screen, Console.screenAt, Console.setTerm, h]

/-- Printing on the page of `t` shows on the screen of `t` and on no other. -/
theorem screen_puts (h : con.puts t (videoPage t) l = some con') (t' : TermId) :
    (con.screen t').puts (if t = t' then l else []) = some (con'.screen t') := by
  by_cases ht : t = t'
  · subst ht
    rw [if_pos rfl]
    exact Console.screenAt_puts h
  · -- two terminals have different video pages
    rw [if_neg ht, Console.screen, Console.screen,
      (Console.onlyScreen_puts h).screenAt_eq (Ne.symm ht) fun hpage =>
        ht (videoPage_injective hpage).symm]
    rfl

/-- What a call of `execute` other than `clear` does to the console: it prints its message, and a
launch sets `terms[curr_term].pid`. -/
theorem con_execute (hclear : ∀ cmd, parseCommand command = some cmd →
      findProgram env.img cmd stack ≠ .error .clear)
    (h : execute env command stack k = some (r, k')) :
    ∃ con, k.con.puts k.procs.currTerm k.procs.videoMapping r.message = some con ∧
      ∀ t, k'.con.screen t = con.screen t := by
  cases execute_cases h with
  | @early cmd e k' hcmd hfind hk' =>
    -- the exits of the checks print their message
    have he : e ≠ .clear := by
      rintro rfl
      exact hclear cmd hcmd hfind
    rw [exitEarly, if_neg he] at hk'
    obtain ⟨con, hcon, rfl⟩ := Option.map_eq_some_iff.mp hk'
    exact ⟨con, hcon, fun _ => rfl⟩
  | maximumProcesses hcmd hfind hbusy hk' =>
    obtain ⟨con, hcon, rfl⟩ := Option.map_eq_some_iff.mp hk'
    exact ⟨con, hcon, fun _ => rfl⟩
  | loadFail hcmd hfind hfree hfirst hpage hload => exact ⟨k.con, rfl, fun _ => rfl⟩
  | rootShellReady hcmd hfind hfree hfirst hpage hload hroot =>
    exact ⟨k.con, rfl, fun t => screen_setTerm_pid _ _ t _⟩
  | root hcmd hfind hfree hfirst hpage hload hroot hi =>
    exact ⟨k.con, rfl, fun t => screen_setTerm_pid _ _ t _⟩
  | child hcmd hfind hfree hfirst hpage hload hroot hi hparent =>
    exact ⟨k.con, rfl, fun t => screen_setTerm_pid _ _ t _⟩

/-- A call of `halt` prints the message of a root shell, and sets `terms[curr_term].pid`. -/
theorem con_halt {S : Forest} (hshell : ValidShell env.img) (hS : Represents k.procs S)
    (h : halt env status stack k = some (hr, k')) :
    ∃ con, k.con.puts k.procs.currTerm k.procs.videoMapping
        (if IsRootPid k.procs.currPid then architect else []) = some con ∧
      ∀ t, k'.con.screen t = con.screen t := by
  by_cases hroot : IsRootPid k.procs.currPid
  · rw [if_pos hroot]
    obtain ⟨con, k₁, result, hcon, hx, hres⟩ := halt_root hroot h
    rcases hS.halt_cases hshell h with ⟨-, cmd, eip, page, rfl, -⟩ | ⟨hno, -⟩
    · rcases hres with ⟨eip', rfl, -, rfl⟩ | ⟨-, hchild⟩
      · -- the respawn runs the command `shell`, which is not `clear`
        have hfound : ∀ cmd, parseCommand (cString "shell" env.haltShellAfter) = some cmd →
            findProgram env.img cmd stack ≠ .error .clear := by
          intro cmd hcmd hfind
          obtain ⟨prog, hprog, -⟩ := findProgram_shell hshell hcmd stack
          rw [hprog] at hfind
          cases hfind
        obtain ⟨con', hcon', hscreen⟩ := con_execute hfound hx
        cases hcon'
        exact ⟨con, hcon, hscreen⟩
      · obtain ⟨parent, -, hr, -⟩ := haltChild_eq_some.mp hchild
        cases hr
    · exact absurd hroot hno
  · rw [if_neg hroot]
    rw [halt_child hroot] at h
    obtain ⟨parent, -, -, rfl⟩ := haltChild_eq_some.mp h
    exact ⟨k.con, rfl, fun t => screen_setTerm_pid _ _ t _⟩

/-- A terminal switch moves no cursor and writes to no page. -/
theorem screen_switchTerm (toTerm t : TermId) (k : Kernel) :
    (switchTerm toTerm k).con.screen t = k.con.screen t := by
  rw [switchTerm]
  split_ifs <;> rfl

theorem con_contextSwitch (esp : Word) (k : Kernel) : (contextSwitch esp k).2.con = k.con := by
  rw [contextSwitch]
  split_ifs <;> rfl

/-- One event shows on terminal `t` as what it prints there. -/
theorem screen_outputStep {S : Forest} {e : OutputEvent} (hshell : ValidShell env.img)
    (hS : Represents k.procs S) (hclear : ¬ IsClear env.img e)
    (hstep : outputStep env k e = some k') (t : TermId) :
    (k.con.screen t).puts (printedOn env t k e) = some (k'.con.screen t) := by
  cases e with
  | write bytes =>
    obtain ⟨con, hcon, rfl⟩ := Option.map_eq_some_iff.mp hstep
    rw [hS.videoMapping] at hcon
    exact screen_puts hcon t
  | process e =>
    cases e with
    | execute command stack =>
      obtain ⟨⟨r, _⟩, hx, rfl⟩ := Option.map_eq_some_iff.mp hstep
      obtain ⟨con, hcon, hscreen⟩ := con_execute
        (fun cmd hcmd hfind => hclear ⟨cmd, hcmd, hfind⟩) hx
      rw [hS.videoMapping] at hcon
      rw [hscreen, printedOn, OutputEvent.message, hx]
      exact screen_puts hcon t
    | halt status stack =>
      obtain ⟨⟨r, _⟩, hx, rfl⟩ := Option.map_eq_some_iff.mp hstep
      obtain ⟨con, hcon, hscreen⟩ := con_halt hshell hS hx
      rw [hS.videoMapping] at hcon
      rw [hscreen, printedOn, OutputEvent.message]
      exact screen_puts hcon t
    | tick esp =>
      cases hstep
      -- neither a tick nor a switch prints
      rw [con_contextSwitch, printedOn, OutputEvent.message, ite_self]
      rfl
    | switchTerm toTerm =>
      cases hstep
      rw [screen_switchTerm, printedOn, OutputEvent.message, ite_self]
      rfl

theorem Represents.outputStep {S : Forest} {e : OutputEvent} (hshell : ValidShell env.img)
    (hS : Represents k.procs S) (hstep : outputStep env k e = some k') :
    ∃ S', Represents k'.procs S' := by
  cases e with
  | process e => exact hS.processStep hshell hstep
  | write bytes => exact ⟨S, procs_puts hstep ▸ hS⟩

end

/-- The process belongs to the terminal: the parent pointers lead to it from the terminal's
process. -/
def BelongsTo (ps : Procs) (p : Pid) (t : TermId) : Prop :=
  ∃ l, Walk ps.parent IsRootPid (ps.terminal t).pid l ∧ p ∈ l

/-- After any run from boot without `clear`, every process of terminal `t` has the video page of
`t` mapped, and the cursor and the page of `t` are those that the output of its own processes
leads to. -/
theorem output_isolation {env : Env} {ram : BootRam} {r : ExecResult} {k₀ k : Kernel}
    {es : List OutputEvent} (hshell : ValidShell env.img)
    (hentry : entry env ram = some (r, k₀)) (hclear : ∀ e ∈ es, ¬ IsClear env.img e)
    (hrun : exec (outputStep env) k₀ es = some k) (t : TermId) :
    (∀ p, BelongsTo k.procs p t → k.procs.pageTable p = 0xB8 + 2 * t.val) ∧
      (k₀.con.screen t).puts (outputOf env t k₀ es) = some (k.con.screen t) := by
  have hboot : ∃ S, Represents k₀.procs S := ⟨_, (entry_spec hshell hentry).exact.toRepresents⟩
  have halong : Along (outputStep env) (fun _ e => ¬ IsClear env.img e) k₀ es :=
    along_of_forall hclear k₀
  -- a kernel that lays out stacks simulates the screen of `t`
  let R : Kernel → Screen → Prop := fun k s => (∃ S, Represents k.procs S) ∧ s = k.con.screen t
  have hsim : ∀ k e k' s, R k s → ¬ IsClear env.img e → outputStep env k e = some k' →
      ∃ s', exec Screen.putc s (printedOn env t k e) = some s' ∧ R k' s' := by
    rintro k e k' s ⟨⟨S, hS⟩, rfl⟩ hno hstep
    exact ⟨_, screen_outputStep hshell hS hno hstep t, hS.outputStep hshell hstep, rfl⟩
  obtain ⟨screen, hscreen, ⟨S, hS⟩, rfl⟩ := exec_refines hsim ⟨hboot, rfl⟩ halong hrun
  refine ⟨?_, hscreen⟩
  rintro p ⟨l, hl, hp⟩
  rw [hl.unique (hS.walk t)] at hp
  exact hS.mapped t p hp

/-- Terminals 0 and 1 write in turn, while terminal 1 is on screen and after its root shell has
left. -/
theorem output_isolation_sample :
    ∃ r k₀ k, entry sampleEnv zeroRam = some (r, k₀) ∧
      exec (outputStep sampleEnv) k₀
        [.write (ascii "zero"), .process (.switchTerm 1), .process (.tick 0x1000#32),
          .process (.tick 0x1000#32), .write (ascii "one"), .process (.halt 0#8 fun _ => 0#8),
          .process (.tick 0x2000#32), .process (.tick 0x2000#32), .write (ascii "zero again")] =
        some k ∧
      ∀ t, (∀ p, BelongsTo k.procs p t → k.procs.pageTable p = 0xB8 + 2 * t.val) ∧
        (k₀.con.screen t).puts (outputOf sampleEnv t k₀
          [.write (ascii "zero"), .process (.switchTerm 1), .process (.tick 0x1000#32),
            .process (.tick 0x1000#32), .write (ascii "one"), .process (.halt 0#8 fun _ => 0#8),
            .process (.tick 0x2000#32), .process (.tick 0x2000#32), .write (ascii "zero again")]) =
          some (k.con.screen t) := by
  have hrun : ((entry sampleEnv zeroRam).bind fun x => exec (outputStep sampleEnv) x.2
      [.write (ascii "zero"), .process (.switchTerm 1), .process (.tick 0x1000#32),
        .process (.tick 0x1000#32), .write (ascii "one"), .process (.halt 0#8 fun _ => 0#8),
        .process (.tick 0x2000#32), .process (.tick 0x2000#32),
        .write (ascii "zero again")]).isSome := by
    decide +kernel
  obtain ⟨k, hk⟩ := Option.isSome_iff_exists.mp hrun
  obtain ⟨⟨r, k₀⟩, hentry, hk⟩ := Option.bind_eq_some_iff.mp hk
  refine ⟨r, k₀, k, hentry, hk, output_isolation validShell_sampleImage hentry ?_ hk⟩
  simp [IsClear]

end Ece391
