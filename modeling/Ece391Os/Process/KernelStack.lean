import Ece391Os.Lib.Transition
import Ece391Os.Process.Boot

/-!
# Kernel-stack discipline

`tss.esp0` is where the next interrupt or system call of the running process starts to push. A
launch and a switch set it to the top of the process's kernel stack; `halt` sets it to the `esp`
that `execute` had when the parent called it, which lies below the top by the frame of that call.

* `Blocked` is the invariant: the saved `esp` of every process that waits in `execute` is the top of
  its stack less the frame.
* `always_esp0_iff`: along a run `esp0` stays at the top exactly as long as no process but a root
  shell exits.
-/

namespace Ece391

open Transition

/-- The next system call or interrupt of the running process starts on an empty kernel stack. -/
def EspAtTop (ps : Procs) : Prop := ps.tss.esp0 = kernelStackTop ps.currPid

instance (ps : Procs) : Decidable (EspAtTop ps) := inferInstanceAs (Decidable (_ = _))

/-- The event is the exit of a process that was launched by another one. -/
def ExitsToParent (k : Kernel) : ProcessEvent → Prop
  | .halt _ _ => ¬ IsRootPid k.procs.currPid
  | _ => False

/-- The stacks of the terminals, with `esp0` at the top and every waiting process one frame of
`execute` deep. -/
structure Blocked (env : Env) (ps : Procs) (S : Forest) : Prop extends Represents ps S where
  espAtTop : EspAtTop ps
  theEsp : ∀ t, ∀ p ∈ (S.stack t).tail,
    (ps.pcbs p).theEsp = kernelStackTop p - env.executeFrame

namespace Procs

variable (ps : Procs) (i parent p : Pid)

@[simp]
theorem theEsp_fill (cmd : Command) : ((ps.fill i cmd).pcbs p).theEsp = (ps.pcbs p).theEsp := by
  by_cases h : p = i <;> simp [fill, Pcb.init, h]

theorem theEsp_block (e j : Word) :
    ((ps.block parent i e j).pcbs p).theEsp = if p = parent then e else (ps.pcbs p).theEsp := by
  by_cases h : p = parent <;> simp [block, h]

@[simp]
theorem theEsp_interrupt (esp : Word) :
    ((ps.interrupt esp).pcbs p).theEsp = (ps.pcbs p).theEsp := by
  by_cases h : p = ps.currPid <;> simp [interrupt, h]

@[simp]
theorem theEsp_switchTo (t : TermId) : ((ps.switchTo t).pcbs p).theEsp = (ps.pcbs p).theEsp := by
  by_cases h : p = (ps.terminal t).pid <;> simp [switchTo, h]

end Procs

namespace Blocked

variable {env : Env} {k k' : Kernel} {S : Forest} {e : ProcessEvent}

/-- Every event but the exit of a child keeps the invariant. -/
theorem processStep (hshell : ValidShell env.img) (h : Blocked env k.procs S)
    (hexit : ¬ ExitsToParent k e) (hstep : processStep env k e = some k') :
    ∃ S', Blocked env k'.procs S' := by
  cases e with
  | execute command stack =>
    obtain ⟨⟨r, _⟩, hx, rfl⟩ := Option.map_eq_some_iff.mp hstep
    rcases h.execute_cases h.newParent_eq hx with ⟨_, -, hprocs⟩ |
      ⟨_, _, i, page, -, -, -, hi, -, hprocs⟩ | ⟨cmd, _, i, page, -, hi, -, hprocs⟩
    · exact ⟨S, hprocs ▸ h⟩
    · exact ⟨S, hprocs ▸ ⟨h.toRepresents.leak hi page, h.espAtTop, h.theEsp⟩⟩
    · have hmem := h.toRepresents.not_mem_of_free hi
      refine ⟨_, hprocs ▸ h.toRepresents.launch hi page cmd _ _, ?_, fun t p hp => ?_⟩
      · rw [hprocs]
        rfl
      · -- the caller saves its `esp`, all the other waiting processes keep theirs
        rw [hprocs, Procs.theEsp_block, Procs.pcbs_enter, Procs.theEsp_fill, Procs.pcbs_take]
        split_ifs with hpc
        · rw [hpc, h.espAtTop]
        · apply h.theEsp t p
          by_cases ht : t = k.procs.currTerm
          · subst ht
            rw [RootedStacks.push_stack_self, List.tail_cons] at hp
            obtain ⟨l, hl⟩ := (h.walk k.procs.currTerm).eq_cons
            rw [← h.currPid] at hl
            rw [hl] at hp
            rw [hl, List.tail_cons]
            exact (List.mem_cons.mp hp).resolve_left hpc
          · rwa [RootedStacks.push_stack_of_ne hmem ht] at hp
  | halt status stack =>
    obtain ⟨⟨r, _⟩, hx, rfl⟩ := Option.map_eq_some_iff.mp hstep
    rcases h.toRepresents.halt_cases hshell hx with ⟨hroot, cmd, eip, page, -, hprocs⟩ |
      ⟨hroot, -⟩
    · refine ⟨S, hprocs ▸ h.toRepresents.respawn hroot page cmd, ?_, fun t p hp => ?_⟩
      · rw [hprocs]
        rfl
      · rw [hprocs, Procs.pcbs_enter, Procs.theEsp_fill, Procs.pcbs_take]
        exact h.theEsp t p hp
    · exact absurd hroot hexit
  | tick esp =>
    cases hstep
    refine ⟨S, h.toRepresents.contextSwitch esp, ?_, fun t p hp => ?_⟩ <;>
      rw [procs_contextSwitch]
    · split_ifs
      · exact h.espAtTop
      · rfl
    · split_ifs
      · rw [Procs.theEsp_interrupt]
        exact h.theEsp t p hp
      · rw [Procs.theEsp_switchTo, Procs.theEsp_interrupt]
        exact h.theEsp t p hp
  | switchTerm t =>
    cases hstep
    refine ⟨S, h.toRepresents.switchTerm t, ?_, fun t' p hp => ?_⟩ <;> rw [procs_switchTerm]
    · split_ifs
      · exact h.espAtTop
      · exact h.espAtTop
    · split_ifs
      · exact h.theEsp t' p hp
      · exact h.theEsp t' p hp

/-- The exit of a child leaves its parent with `esp0` one frame below the top. -/
theorem not_espAtTop_of_exitsToParent (h : Blocked env k.procs S) (hexit : ExitsToParent k e) :
    ∃ k', Ece391.processStep env k e = some k' ∧ ¬ EspAtTop k'.procs := by
  cases e with
  | halt status stack =>
    obtain ⟨parent, l, hstack, hparent, -⟩ := h.toRepresents.stack_of_child hexit
    have hx : haltChild status { k with procs := k.procs.decActive } = some _ :=
      haltChild_eq_some.mpr ⟨parent, hparent, rfl, rfl⟩
    refine ⟨_, by rw [Ece391.processStep, halt_child hexit, hx]; rfl, fun htop => ?_⟩
    have hpid : (k.procs.pcbs parent).thePid = parent :=
      h.thePid k.procs.currTerm parent (by simp [hstack])
    have hesp : (k.procs.pcbs parent).theEsp = kernelStackTop parent - env.executeFrame :=
      h.theEsp k.procs.currTerm parent (by simp [hstack])
    have heq : kernelStackTop parent - env.executeFrame = kernelStackTop parent :=
      calc kernelStackTop parent - env.executeFrame = (k.procs.pcbs parent).theEsp := hesp.symm
        _ = kernelStackTop (k.procs.pcbs parent).thePid := htop
        _ = kernelStackTop parent := by rw [hpid]
    apply env.executeFrame_ne
    generalize kernelStackTop parent = top at heq
    bv_omega
  | execute command stack => exact hexit.elim
  | tick esp => exact hexit.elim
  | switchTerm t => exact hexit.elim

end Blocked

/-- From boot, `esp0` is the top of the running process's kernel stack in every state of a run
exactly as long as no process but a root shell exits. -/
theorem always_esp0_iff {env : Env} {ram : BootRam} {r : ExecResult} {k₀ : Kernel}
    (hshell : ValidShell env.img) (hentry : entry env ram = some (r, k₀))
    (es : List ProcessEvent) :
    Always (processStep env) (fun k => EspAtTop k.procs) k₀ es ↔
      Along (processStep env) (fun k e => ¬ ExitsToParent k e) k₀ es := by
  have hspec := entry_spec hshell hentry
  refine always_iff_along (I := fun k => ∃ S, Blocked env k.procs S) ?_ ?_ ?_
    ⟨bootForest, hspec.exact.toRepresents, ?_, fun t p hp => (List.not_mem_nil hp).elim⟩
  · rintro k ⟨S, hS⟩
    exact hS.espAtTop
  · rintro k e k' ⟨S, hS⟩ hexit hstep
    exact hS.processStep hshell hexit hstep
  · rintro k e ⟨S, hS⟩ hexit
    exact hS.not_espAtTop_of_exitsToParent (not_not.mp hexit)
  · rw [EspAtTop, hspec.esp0, hspec.currPid]

/-- A run without such an exit: launches, a root shell that leaves, and switches. -/
theorem always_esp0_sample :
    ∃ r k₀, entry sampleEnv zeroRam = some (r, k₀) ∧
      Always (processStep sampleEnv) (fun k => EspAtTop k.procs) k₀
        [.switchTerm 1, .execute (commandLine "shell") (fun _ => 0#8), .tick 0x1000#32] := by
  obtain ⟨⟨r, k₀⟩, hentry⟩ := Option.isSome_iff_exists.mp entry_sampleEnv
  refine ⟨r, k₀, hentry, (always_esp0_iff validShell_sampleImage hentry _).mpr ?_⟩
  refine along_of_forall (P := fun e => ∀ k, ¬ ExitsToParent k e) ?_ k₀ |>.mono fun k e h => h k
  intro e he k hexit
  simp only [List.mem_cons, List.not_mem_nil, or_false] at he
  rcases he with rfl | rfl | rfl <;> exact hexit

/-- After one launch and exit on terminal 0, the shell runs with its `esp0` below the top. -/
theorem not_espAtTop_after_exit :
    ∃ r k₀ k, entry sampleEnv zeroRam = some (r, k₀) ∧
      exec (processStep sampleEnv) k₀
        [.execute (commandLine "shell") (fun _ => 0#8), .halt 0#8 (fun _ => 0#8)] = some k ∧
      k.procs.currPid = 0 ∧ k.procs.tss.esp0 = kernelStackTop 0 - 0x1A0#32 ∧
      ¬ EspAtTop k.procs := by
  have hrun : ((entry sampleEnv zeroRam).bind fun x => (exec (processStep sampleEnv) x.2
      [.execute (commandLine "shell") (fun _ => 0#8), .halt 0#8 (fun _ => 0#8)]).map fun k =>
      (k.procs.currPid, k.procs.tss.esp0)) = some (0, kernelStackTop 0 - 0x1A0#32) := by
    decide +kernel
  obtain ⟨⟨r, k₀⟩, hentry, hrun⟩ := Option.bind_eq_some_iff.mp hrun
  obtain ⟨k, hk, hregs⟩ := Option.map_eq_some_iff.mp hrun
  obtain ⟨hpid, hesp⟩ := Prod.mk.inj hregs
  refine ⟨r, k₀, k, hentry, hk, hpid, hesp, ?_⟩
  rw [EspAtTop, hpid, hesp]
  decide

end Ece391
