import Ece391Os.Terminal.Line

/-!
# Ctrl+C

`kbd` decides on the process that runs at the interrupt, and waits for its terminal to be on screen
with the interrupts disabled.

* `Screen.puts_architect_eq_none_iff`: when the message for a root shell leaves the page.
* `CtrlCActs`: the handler finishes, and halts the process of the terminal on screen if that is no
  root shell, and no process otherwise.
* `CtrlCWorks` is when it does: a program runs on the terminal on screen, or root shells run and are
  shown and the message fits.
* `ctrlCActs_iff`: in every reachable state.
-/

namespace Ece391

open Transition

/-! ## Where the message fits -/

namespace Screen

/-- The message has 44 characters and a newline, which never faults. -/
theorem puts_architect_eq_none_iff (s : Screen) :
    s.puts architect = none ↔ ¬ (0 ≤ s.cell ∧ s.cell + 2 * 44 ≤ 4096) := by
  obtain ⟨l, hl, hlen, hchars⟩ : ∃ l, architect = l ++ [0x0A#8] ∧ l.length = 44 ∧
      ∀ c ∈ l, Console.isNewline c = false :=
    ⟨architect.take 44, by decide +kernel⟩
  have hne : l ≠ [] := by
    rintro rfl
    cases hlen
  rw [hl, puts_line_eq_none_iff hchars hne, hlen]
  rfl

end Screen

/-! ## The handler -/

/-- The process is busy before and free afterwards. -/
def Halted (ps ps' : Procs) (p : Pid) : Prop :=
  ps.pcbStatusArray p ≠ 0#8 ∧ ps'.pcbStatusArray p = 0#8

/-- Ctrl+C finishes, and halts the process of the terminal on screen if it is no root shell. -/
structure CtrlCActs (env : Env) (k : Kernel) : Prop where
  finishes : kbd env 46#8 k ≠ none
  halts : ∀ r k', kbd env 46#8 k = some (r, k') → ∀ p, Halted k.procs k'.procs p ↔
    p = (k.procs.terminal k.con.termOnScreen).pid ∧ ¬ IsRootPid p

/-- A program runs on the terminal on screen; or a root shell runs, another one is shown, and the
message fits behind the cursor of the one that runs. -/
def CtrlCWorks (k : Kernel) : Prop :=
  if IsRootPid k.procs.currPid then
    IsRootPid (k.procs.terminal k.con.termOnScreen).pid ∧
      0 ≤ k.con.cursorCell k.procs.currTerm ∧ k.con.cursorCell k.procs.currTerm + 2 * 44 ≤ 4096
  else k.con.termOnScreen = k.procs.currTerm

instance (k : Kernel) : Decidable (CtrlCWorks k) :=
  inferInstanceAs (Decidable (if IsRootPid k.procs.currPid then _ ∧ _ else _ = _))

section

variable {env : Env} {k k' : Kernel} {r : KbdResult} {S : Forest}

/-- With Ctrl held, C asks for an interrupt. -/
theorem decode_ctrlC (env : Env) {kb : Keyboard} (hctrl : kb.ctrlReady = true) :
    decode env kb 46#8 = (kb, .interrupt) := by
  change (kb, case46 env kb 46) = (kb, .interrupt)
  rw [case46, if_pos hctrl]

/-- The message for a root shell fits, or the handler faults. -/
theorem kbd_ctrlC_root (hctrl : k.kbd.ctrlReady = true) (hroot : IsRootPid k.procs.currPid) :
    kbd env 46#8 k = none ↔ ¬ (0 ≤ k.con.cursorCell k.procs.currTerm ∧
      k.con.cursorCell k.procs.currTerm + 2 * 44 ≤ 4096) := by
  have hcell : k.con.cursorCell k.procs.currTerm =
      (k.con.screenAt k.procs.currTerm k.procs.videoMapping).cell := rfl
  rw [hcell, ← Screen.puts_architect_eq_none_iff, ← Console.puts_eq_none_iff, kbd]
  simp only [decode_ctrlC env hctrl, Kernel.procs_sendEoi, if_pos hroot, kbdInput_lineEnd,
    Kernel.puts, Kernel.con_sendEoi, Option.bind_eq_bind]
  cases k.con.puts k.procs.currTerm k.procs.videoMapping architect <;> simp

/-- It halts no process. -/
theorem procs_kbd_ctrlC_root (hctrl : k.kbd.ctrlReady = true) (hroot : IsRootPid k.procs.currPid)
    (h : kbd env 46#8 k = some (r, k')) : k'.procs = k.procs := by
  cases kbd_cases h with
  | null | clearLine | architect | char => rfl
  | halt hkey hno => exact absurd hroot hno
  | switch hkey =>
    rw [decode_ctrlC env hctrl] at hkey
    cases hkey

/-- A program on another terminal than the one on screen is waited for. -/
theorem kbd_ctrlC_other (hctrl : k.kbd.ctrlReady = true) (hroot : ¬ IsRootPid k.procs.currPid)
    (hterm : k.con.termOnScreen ≠ k.procs.currTerm) : kbd env 46#8 k = none := by
  rw [kbd]
  simp only [decode_ctrlC env hctrl, Kernel.procs_sendEoi, if_neg hroot, Kernel.con_sendEoi,
    if_pos hterm]

/-- A program on the terminal on screen is halted. -/
theorem kbd_ctrlC_eq_halt (hctrl : k.kbd.ctrlReady = true) (hroot : ¬ IsRootPid k.procs.currPid)
    (hterm : k.con.termOnScreen = k.procs.currTerm) :
    kbd env 46#8 k = (halt env 0#8 (fun _ => 0#8) ((k.sendEoi 1#32).disableIrq 0#32)).map
      fun (r, k) => (.halted r, k) := by
  rw [kbd]
  simp only [decode_ctrlC env hctrl, Kernel.procs_sendEoi, if_neg hroot, Kernel.con_sendEoi,
    if_neg (not_not.mpr hterm)]

/-- It is left for its parent. -/
theorem kbd_ctrlC_child {q : Pid} (hctrl : k.kbd.ctrlReady = true)
    (hroot : ¬ IsRootPid k.procs.currPid) (hterm : k.con.termOnScreen = k.procs.currTerm)
    (hparent : k.procs.parent k.procs.currPid = some q) :
    ∃ r k', kbd env 46#8 k = some (r, k') ∧ k'.procs = k.procs.decActive.leave q := by
  rw [kbd_ctrlC_eq_halt hctrl hroot hterm, halt_child (by exact hroot)]
  exact ⟨_, _, Option.map_eq_some_iff.mpr
    ⟨_, haltChild_eq_some.mpr ⟨q, hparent, rfl, rfl⟩, rfl⟩, rfl⟩

theorem Represents.ctrlC_iff (hS : Represents k.procs S) (hctrl : k.kbd.ctrlReady = true) :
    CtrlCActs env k ↔ CtrlCWorks k := by
  by_cases hroot : IsRootPid k.procs.currPid
  · rw [CtrlCWorks, if_pos hroot]
    have hnone : Ece391.kbd env 46#8 k = none ↔ _ := kbd_ctrlC_root hctrl hroot
    -- the message is printed, and the processes are those from before
    have hhalted : ∀ p, ¬ Halted k.procs k.procs p := fun p h => h.1 h.2
    constructor
    · rintro ⟨hfinishes, hhalts⟩
      refine ⟨?_, by_contra fun hno => hfinishes (hnone.mpr hno)⟩
      -- a program on screen would have to be halted
      by_contra hshown
      obtain ⟨⟨r, k'⟩, hk'⟩ := Option.ne_none_iff_exists'.mp hfinishes
      have hp := (hhalts r k' hk' _).mpr ⟨rfl, hshown⟩
      rw [procs_kbd_ctrlC_root hctrl hroot hk'] at hp
      exact hhalted _ hp
    · rintro ⟨hshown, hfits⟩
      refine ⟨fun h => hnone.mp h hfits, fun r k' hk' p => ?_⟩
      rw [procs_kbd_ctrlC_root hctrl hroot hk']
      apply iff_of_false (hhalted p)
      rintro ⟨rfl, hno⟩
      exact hno hshown
  · rw [CtrlCWorks, if_neg hroot]
    constructor
    · rintro ⟨hfinishes, -⟩
      -- the handler waits for the terminal to be shown
      by_contra hterm
      exact hfinishes (kbd_ctrlC_other hctrl hroot hterm)
    · intro hterm
      obtain ⟨parent, _, -, hparent, -⟩ := hS.stack_of_child hroot
      obtain ⟨r, k₁, hk₁, hprocs⟩ : ∃ r k', Ece391.kbd env 46#8 k = some (r, k') ∧ _ :=
        kbd_ctrlC_child hctrl hroot hterm hparent
      -- the running process is the only one whose status changes
      have hstatus : k₁.procs.pcbStatusArray =
          Function.update k.procs.pcbStatusArray k.procs.currPid 0#8 := by
        rw [hprocs]
        rfl
      refine ⟨by rw [hk₁]; exact Option.some_ne_none _, fun r' k' hk' p => ?_⟩
      obtain ⟨rfl, rfl⟩ : r = r' ∧ k₁ = k' := by simpa using hk₁.symm.trans hk'
      rw [hterm, ← hS.currPid, Halted, hstatus]
      by_cases hp : p = k.procs.currPid
      · subst hp
        simp [hroot, hS.busy _ _ hS.currPid_mem]
      · simp [hp]

end

/-- In every reachable state, Ctrl+C acts on the terminal on screen exactly in the states of
`CtrlCWorks`. -/
theorem ctrlCActs_iff {env : Env} {ram : BootRam} {r : ExecResult} {k₀ k : Kernel}
    {es : List SystemEvent} (hshell : ValidShell env.img) (hentry : entry env ram = some (r, k₀))
    (hrun : exec (systemStep env) k₀ es = some k) (hctrl : k.kbd.ctrlReady = true) :
    CtrlCActs env k ↔ CtrlCWorks k := by
  obtain ⟨⟨S, hS⟩, -⟩ := reachable_systemStep hshell hentry hrun
  exact hS.ctrlC_iff hctrl

/-- Ctrl+C on the screen of terminal 0, whose shell has launched a program that runs. -/
theorem ctrlCActs_sample :
    ∃ r k₀ k, entry sampleEnv zeroRam = some (r, k₀) ∧
      exec (systemStep sampleEnv) k₀
        [.output (.process (.execute (commandLine "shell") fun _ => 0#8)), .key 29#8] = some k ∧
      (k.procs.terminal k.con.termOnScreen).pid = 3 ∧ CtrlCActs sampleEnv k := by
  have hrun : (entry sampleEnv zeroRam).any fun x => (exec (systemStep sampleEnv) x.2
      [.output (.process (.execute (commandLine "shell") fun _ => 0#8)), .key 29#8]).any fun k =>
      decide (k.kbd.ctrlReady = true ∧ CtrlCWorks k ∧
        (k.procs.terminal k.con.termOnScreen).pid = 3) := by
    decide +kernel
  simp only [Option.any_eq_true, decide_eq_true_eq] at hrun
  obtain ⟨⟨r, k₀⟩, hentry, k, hk, hctrl, hworks, hpid⟩ := hrun
  exact ⟨r, k₀, k, hentry, hk, hpid,
    (ctrlCActs_iff validShell_sampleImage hentry hk hctrl).mpr hworks⟩

/-- Terminal 1 is shown before a tick, while a program of terminal 0 runs: the handler waits for a
tick that cannot come. -/
theorem not_ctrlCActs_other_screen :
    ∃ r k₀ k, entry sampleEnv zeroRam = some (r, k₀) ∧
      exec (systemStep sampleEnv) k₀
        [.output (.process (.execute (commandLine "shell") fun _ => 0#8)), .key 56#8, .key 60#8,
          .key 184#8, .key 29#8] = some k ∧
      k.procs.currPid = 3 ∧ k.procs.currTerm = 0 ∧ k.con.termOnScreen = 1 ∧
      kbd sampleEnv 46#8 k = none ∧ ¬ CtrlCActs sampleEnv k := by
  have hrun : (entry sampleEnv zeroRam).any fun x => (exec (systemStep sampleEnv) x.2
      [.output (.process (.execute (commandLine "shell") fun _ => 0#8)), .key 56#8, .key 60#8,
        .key 184#8, .key 29#8]).any fun k =>
      decide (k.kbd.ctrlReady = true ∧ k.procs.currPid = 3 ∧ k.procs.currTerm = 0 ∧
        k.con.termOnScreen = 1) := by
    decide +kernel
  simp only [Option.any_eq_true, decide_eq_true_eq] at hrun
  obtain ⟨⟨r, k₀⟩, hentry, k, hk, hctrl, hpid, hterm, hscreen⟩ := hrun
  have hwaits : kbd sampleEnv 46#8 k = none :=
    kbd_ctrlC_other hctrl (by rw [hpid]; decide) (by rw [hterm, hscreen]; decide)
  exact ⟨r, k₀, k, hentry, hk, hpid, hterm, hscreen, hwaits, fun h => h.finishes hwaits⟩

end Ece391
