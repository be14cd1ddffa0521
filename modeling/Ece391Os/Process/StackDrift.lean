import Ece391Os.Process.Contexts
import Ece391Os.Process.KernelStack

/-!
# How far the kernel stack of a process drifts

`halt` sets `tss.esp0` to the `esp` that the parent's `execute` has saved. So the stack of the
parent starts one frame of `execute` lower than before, which the next launch saves in its turn.
Only a launch and a switch of the scheduler set `esp0` to the top again.

* `driftStep` is the step of the processes with the exits counted that a process has returned from
  since its `esp0` has been set to the top.
* `Drifted` is the invariant, and `esp0_eq_drift` what it says about every run.
* `fetchCurPcbPtr_iff`: a system call takes the PCB at the bottom of its stack for that of the
  process exactly while the frames of all these exits, and its own, fit into the 8 KB.
-/

namespace Ece391

open Transition

/-- The kernel, and for each process the exits of its children since its `esp0` has been the top of
its kernel stack. -/
structure DriftState where
  kernel : Kernel
  exits : Pid → ℕ

namespace DriftState

/-- After `entry` no child has exited. -/
def start (k : Kernel) : DriftState := { kernel := k, exits := fun _ => 0 }

/-- `tss.esp0` has been set to the top of the kernel stack of the running process. -/
def reset (s : DriftState) (kernel : Kernel) : DriftState :=
  { kernel, exits := Function.update s.exits kernel.procs.currPid 0 }

/-- The running process has returned from the exit of a child. -/
def returned (s : DriftState) (kernel : Kernel) : DriftState :=
  let p := kernel.procs.currPid
  { kernel, exits := Function.update s.exits p (s.exits p + 1) }

end DriftState

/-- One step of the processes. -/
def driftStep (env : Env) (s : DriftState) : ProcessEvent → Option DriftState
  | .execute command stack =>
    (execute env command stack s.kernel).map fun (r, kernel) =>
      match r with
      | .userMode _ => s.reset kernel
      | _ => { s with kernel }
  | .halt status stack =>
    (halt env status stack s.kernel).map fun (r, kernel) =>
      match r with
      | .respawned _ => s.reset kernel
      | .exitToShell _ _ => s.returned kernel
  | .tick esp =>
    let (resume, kernel) := contextSwitch esp s.kernel
    match resume with
    | .stay => some { s with kernel }
    | _ => some (s.reset kernel)
  | .switchTerm t => some { s with kernel := switchTerm t s.kernel }

/-- `esp0` with `n` frames of `execute` below the top of the kernel stack. -/
def driftedEsp (env : Env) (p : Pid) (n : ℕ) : Word :=
  kernelStackTop p - BitVec.ofNat 32 n * env.executeFrame

/-- `fetch_cur_pcb_ptr` on a stack. -/
def fetchCurPcbPtr (esp : Word) : Word := esp &&& 0xFFFFE000#32

/-- The invariant: `esp0` has drifted by the exits of the running process, and a process that waits
has saved the `esp` one more frame below. -/
structure Drifted (env : Env) (s : DriftState) (S : Forest) : Prop
    extends Represents s.kernel.procs S where
  esp0 : s.kernel.procs.tss.esp0 =
    driftedEsp env s.kernel.procs.currPid (s.exits s.kernel.procs.currPid)
  theEsp : ∀ t, ∀ p ∈ (S.stack t).tail,
    (s.kernel.procs.pcbs p).theEsp = driftedEsp env p (s.exits p + 1)

variable {env : Env} {s s' : DriftState} {S : Forest} {e : ProcessEvent} {p : Pid}

theorem driftedEsp_zero (env : Env) (p : Pid) : driftedEsp env p 0 = kernelStackTop p := by
  exact (congrArg (kernelStackTop p - ·) BitVec.zero_mul).trans (BitVec.sub_zero _)

/-- One more frame. -/
theorem driftedEsp_succ (env : Env) (p : Pid) (n : ℕ) :
    driftedEsp env p n - env.executeFrame = driftedEsp env p (n + 1) := by
  rw [driftedEsp, driftedEsp, BitVec.ofNat_add, BitVec.add_mul, BitVec.one_mul]
  generalize BitVec.ofNat 32 n * env.executeFrame = d
  generalize env.executeFrame = f
  generalize kernelStackTop p = top
  bv_omega

/-- A tick resets the count of the process that it switches to. -/
theorem driftStep_tick (env : Env) (s : DriftState) (esp : Word) :
    driftStep env s (.tick esp) = some
      (if s.kernel.procs.Stays then { s with kernel := (contextSwitch esp s.kernel).2 }
        else s.reset (contextSwitch esp s.kernel).2) := by
  rw [driftStep, contextSwitch]
  split_ifs
  · rfl
  · unfold Procs.resume
    split_ifs <;> rfl

/-- The process of a terminal waits for no other one. -/
theorem Layout.pid_not_mem_tail {ps : Procs} (h : Layout ps S) (t t' : TermId) :
    (ps.terminal t').pid ∉ (S.stack t).tail := by
  intro hp
  obtain rfl := S.index_unique (List.mem_of_mem_tail hp) (h.pid_mem t')
  obtain ⟨l, hl⟩ := (h.walk t).eq_cons
  have hnodup := S.nodup t
  rw [hl] at hnodup hp
  exact (List.nodup_cons.mp hnodup).1 hp

theorem Layout.currPid_not_mem_tail {ps : Procs} (h : Layout ps S) (t : TermId) :
    ps.currPid ∉ (S.stack t).tail :=
  h.currPid ▸ h.pid_not_mem_tail t ps.currTerm

namespace Drifted

/-- The saved stacks count, and not the counts of the processes that run. -/
theorem reset {k' : Kernel} {S' : Forest} (hrep : Represents k'.procs S')
    (hesp0 : k'.procs.tss.esp0 = kernelStackTop k'.procs.currPid)
    (htheEsp : ∀ t, ∀ p ∈ (S'.stack t).tail,
      (k'.procs.pcbs p).theEsp = driftedEsp env p (s.exits p + 1)) :
    Drifted env (s.reset k') S' where
  toRepresents := hrep
  esp0 := by
    show k'.procs.tss.esp0 = driftedEsp env k'.procs.currPid
      (Function.update s.exits k'.procs.currPid 0 k'.procs.currPid)
    rw [hesp0, Function.update_self, driftedEsp_zero]
  theEsp t p hp := by
    have hne : p ≠ k'.procs.currPid := fun heq => hrep.currPid_not_mem_tail t (heq ▸ hp)
    show _ = driftedEsp env p (Function.update s.exits k'.procs.currPid 0 p + 1)
    rw [Function.update_of_ne hne]
    exact htheEsp t p hp

/-- A launch saves the `esp` of its caller. -/
theorem launch (h : Drifted env s S) {i : Pid} (hi : s.kernel.procs.pcbStatusArray i = 0#8)
    (page : Buffer) (cmd : Command) {k' : Kernel}
    (hprocs : k'.procs = (((s.kernel.procs.take i page).fill i cmd).enter i).block
      s.kernel.procs.currPid i (s.kernel.procs.tss.esp0 - env.executeFrame)
      (s.kernel.procs.tss.esp0 - env.executeFrame - env.jumpFrame)) :
    Drifted env (s.reset k') (S.push s.kernel.procs.currTerm i (h.not_mem_of_free hi)) := by
  refine .reset (hprocs ▸ h.toRepresents.launch hi page cmd _ _) ?_ fun t p hp => ?_
  · rw [hprocs]
    rfl
  · rw [hprocs, Procs.theEsp_block, Procs.pcbs_enter, Procs.theEsp_fill, Procs.pcbs_take]
    split_ifs with hpc
    · rw [hpc, h.esp0, driftedEsp_succ]
    · -- the others waited before
      apply h.theEsp t p
      by_cases ht : t = s.kernel.procs.currTerm
      · subst ht
        rw [RootedStacks.push_stack_self, List.tail_cons] at hp
        obtain ⟨l, hl⟩ := (h.walk s.kernel.procs.currTerm).eq_cons
        rw [← h.currPid] at hl
        rw [hl] at hp
        rw [hl, List.tail_cons]
        exact (List.mem_cons.mp hp).resolve_left hpc
      · rwa [RootedStacks.push_stack_of_ne (h.not_mem_of_free hi) ht] at hp

/-- An exit leaves the parent one more frame below. -/
theorem exit (h : Drifted env s S) {q : Pid} {l : List Pid} {k' : Kernel}
    (hstack : S.stack s.kernel.procs.currTerm = s.kernel.procs.currPid :: q :: l)
    (hwalk : Walk s.kernel.procs.parent IsRootPid q (q :: l))
    (hlen : 1 < (S.stack s.kernel.procs.currTerm).length)
    (hprocs : k'.procs = s.kernel.procs.decActive.leave q) :
    Drifted env (s.returned k') (S.pop s.kernel.procs.currTerm hlen) := by
  have hrep : Represents k'.procs (S.pop s.kernel.procs.currTerm hlen) :=
    hprocs ▸ h.toRepresents.leave hstack hwalk hlen
  have hq : (s.kernel.procs.pcbs q).thePid = q :=
    h.thePid s.kernel.procs.currTerm q (by simp [hstack])
  have hcurr : k'.procs.currPid = q := by
    rw [hprocs]
    exact hq
  refine ⟨hrep, ?_, fun t p hp => ?_⟩
  · show k'.procs.tss.esp0 = driftedEsp env k'.procs.currPid
      (Function.update s.exits k'.procs.currPid (s.exits k'.procs.currPid + 1) k'.procs.currPid)
    rw [hcurr, Function.update_self, hprocs]
    exact h.theEsp s.kernel.procs.currTerm q (by simp [hstack])
  · have hne : p ≠ k'.procs.currPid := fun heq => hrep.currPid_not_mem_tail t (heq ▸ hp)
    show (k'.procs.pcbs p).theEsp = driftedEsp env p (Function.update s.exits _ _ p + 1)
    rw [Function.update_of_ne hne, hprocs]
    apply h.theEsp t p
    by_cases ht : t = s.kernel.procs.currTerm
    · subst ht
      rw [RootedStacks.pop_stack_self] at hp
      exact List.mem_of_mem_tail hp
    · rwa [RootedStacks.pop_stack_of_ne hlen ht] at hp

theorem driftStep (hshell : ValidShell env.img) (h : Drifted env s S)
    (hstep : Ece391.driftStep env s e = some s') : ∃ S', Drifted env s' S' := by
  cases e with
  | execute command stack =>
    obtain ⟨⟨r, k'⟩, hx, rfl⟩ := Option.map_eq_some_iff.mp hstep
    rcases h.execute_cases h.newParent_eq hx with ⟨_, rfl, hprocs⟩ |
      ⟨_, _, i, page, -, -, -, hi, rfl, hprocs⟩ | ⟨cmd, _, i, page, -, hi, rfl, hprocs⟩
    · refine ⟨S, hprocs ▸ h.toRepresents, ?_, ?_⟩ <;> rw [hprocs]
      · exact h.esp0
      · exact h.theEsp
    · refine ⟨S, hprocs ▸ h.toRepresents.leak hi page, ?_, ?_⟩ <;> rw [hprocs]
      · exact h.esp0
      · exact h.theEsp
    · exact ⟨_, h.launch hi page cmd hprocs⟩
  | halt status stack =>
    obtain ⟨⟨r, k'⟩, hx, rfl⟩ := Option.map_eq_some_iff.mp hstep
    rcases h.toRepresents.halt_cases hshell hx with ⟨hroot, cmd, eip, page, rfl, hprocs⟩ |
      ⟨hroot, parent, l, hstack, hwalk, rfl, hprocs⟩
    · refine ⟨S, .reset (hprocs ▸ h.toRepresents.respawn hroot page cmd) ?_ fun t p hp => ?_⟩ <;>
        rw [hprocs]
      · rfl
      · rw [Procs.pcbs_enter, Procs.theEsp_fill, Procs.pcbs_take]
        exact h.theEsp t p hp
    · exact ⟨_, h.exit hstack hwalk (by simp [hstack]) hprocs⟩
  | tick esp =>
    have hrep := h.toRepresents.contextSwitch esp
    rw [driftStep_tick] at hstep
    cases hstep
    split_ifs with hstays
    · refine ⟨S, hrep, ?_, fun t p hp => ?_⟩
      · show (contextSwitch esp s.kernel).2.procs.tss.esp0 = _
        rw [procs_contextSwitch, if_pos hstays]
        exact h.esp0
      · rw [procs_contextSwitch, if_pos hstays, Procs.theEsp_interrupt]
        exact h.theEsp t p hp
    · refine ⟨S, .reset hrep ?_ fun t p hp => ?_⟩ <;> rw [procs_contextSwitch, if_neg hstays]
      · rfl
      · rw [Procs.theEsp_switchTo, Procs.theEsp_interrupt]
        exact h.theEsp t p hp
  | switchTerm t =>
    cases hstep
    refine ⟨S, h.toRepresents.switchTerm t, ?_, fun t' p hp => ?_⟩ <;>
      rw [procs_switchTerm] <;> split_ifs
    · exact h.esp0
    · exact h.esp0
    · exact h.theEsp t' p hp
    · exact h.theEsp t' p hp

end Drifted

/-! ## Runs -/

/-- The count leaves the steps of the processes as they are. -/
theorem kernel_driftStep (env : Env) (s : DriftState) (e : ProcessEvent) :
    (driftStep env s e).map DriftState.kernel = processStep env s.kernel e := by
  cases e with
  | execute command stack =>
    rw [driftStep, processStep, Option.map_map]
    refine congrArg (Option.map · _) (funext fun x => ?_)
    rcases x with ⟨_ | _ | _, _⟩ <;> rfl
  | halt status stack =>
    rw [driftStep, processStep, Option.map_map]
    refine congrArg (Option.map · _) (funext fun x => ?_)
    rcases x with ⟨_ | _, _⟩ <;> rfl
  | tick esp =>
    rw [driftStep_tick, processStep, Option.map_some]
    split_ifs <;> rfl
  | switchTerm t => rfl

/-- The invariant holds in every run from boot. -/
theorem drifted_run {ram : BootRam} {r : ExecResult} {k₀ : Kernel} {es : List ProcessEvent}
    (hshell : ValidShell env.img) (hentry : entry env ram = some (r, k₀))
    (hrun : exec (driftStep env) (.start k₀) es = some s) : ∃ S, Drifted env s S := by
  have hspec := entry_spec hshell hentry
  have hstart : Drifted env (.start k₀) bootForest := by
    refine ⟨hspec.exact.toRepresents, ?_, fun t p hp => absurd hp List.not_mem_nil⟩
    show k₀.procs.tss.esp0 = driftedEsp env k₀.procs.currPid 0
    rw [hspec.esp0, hspec.currPid, driftedEsp_zero]
  exact exec_invariant (P := fun _ _ => True) (I := fun s => ∃ S, Drifted env s S)
    (fun s e s' ⟨S, hS⟩ _ hstep => hS.driftStep hshell hstep) ⟨_, hstart⟩
    (along_of_forall (fun _ _ => trivial) _) hrun

/-- From boot, in every run of launches, exits, ticks and terminal switches, the running process
enters the kernel as many frames of `execute` below the top of its kernel stack as children of it
have exited since it has been launched or the scheduler has last switched to it. -/
theorem esp0_eq_drift {ram : BootRam} {r : ExecResult} {k₀ : Kernel} (hshell : ValidShell env.img)
    (hentry : entry env ram = some (r, k₀)) (es : List ProcessEvent) :
    Always (driftStep env)
      (fun s => s.kernel.procs.tss.esp0 =
        driftedEsp env s.kernel.procs.currPid (s.exits s.kernel.procs.currPid)) (.start k₀) es := by
  intro fs _ s hrun
  obtain ⟨S, hS⟩ := drifted_run hshell hentry hrun
  exact hS.esp0

/-- Two commands one after the other. -/
theorem esp0_eq_drift_sample :
    ∃ r k₀, entry sampleEnv zeroRam = some (r, k₀) ∧
      Always (driftStep sampleEnv)
        (fun s => s.kernel.procs.tss.esp0 =
          driftedEsp sampleEnv s.kernel.procs.currPid (s.exits s.kernel.procs.currPid)) (.start k₀)
        [.execute (commandLine "shell") (fun _ => 0#8), .halt 0#8 (fun _ => 0#8),
          .execute (commandLine "shell") (fun _ => 0#8), .halt 0#8 (fun _ => 0#8)] := by
  obtain ⟨⟨r, k₀⟩, hentry⟩ := Option.isSome_iff_exists.mp entry_sampleEnv
  exact ⟨r, k₀, hentry, esp0_eq_drift validShell_sampleImage hentry _⟩

/-! ## The PCB of a system call -/

/-- The mask takes the 8 KB block. -/
theorem toNat_fetchCurPcbPtr (esp : Word) :
    (fetchCurPcbPtr esp).toNat = esp.toNat / 0x2000 * 0x2000 := by
  have hmask : ∀ i : Fin 32, (0xFFFFE000#32 : Word).getLsbD i = decide (13 ≤ i.val) := by decide
  have hshift : fetchCurPcbPtr esp = (esp >>> 13) <<< 13 := by
    apply BitVec.eq_of_getLsbD_eq
    intro i hi
    rw [fetchCurPcbPtr, BitVec.getLsbD_and, hmask ⟨i, hi⟩, BitVec.getLsbD_shiftLeft,
      BitVec.getLsbD_ushiftRight]
    by_cases h : 13 ≤ i
    · simp [h, hi, Nat.not_lt.mpr h]
    · simp [h, Nat.not_le.mp h]
  rw [hshift, BitVec.toNat_shiftLeft, BitVec.toNat_ushiftRight, Nat.shiftRight_eq_div_pow,
    Nat.shiftLeft_eq]
  have hlt := esp.isLt
  omega

/-- A stack pointer leads to the PCB of the process in whose block it is. -/
theorem fetchCurPcbPtr_eq_iff {esp : Word} :
    fetchCurPcbPtr esp = BitVec.ofNat 32 (pcbPtr p) ↔
      pcbPtr p ≤ esp.toNat ∧ esp.toNat < pcbPtr p + 0x2000 := by
  have hp := p.isLt
  rw [← BitVec.toNat_inj, toNat_fetchCurPcbPtr, BitVec.toNat_ofNat]
  unfold pcbPtr
  omega

/-- A stack pointer below the drifted `esp0`, which has not gone round the address space. -/
theorem toNat_driftedEsp_sub {n depth : ℕ}
    (hdepth : n * env.executeFrame.toNat + depth ≤ 0x7F5FFC) :
    (driftedEsp env p n - BitVec.ofNat 32 depth).toNat +
      (n * env.executeFrame.toNat + depth) = pcbPtr p + 0x1FFC := by
  have hp := p.isLt
  have htop : (kernelStackTop p).toNat = pcbPtr p + 0x1FFC := by
    rw [kernelStackTop, BitVec.toNat_ofNat]
    unfold pcbPtr
    omega
  have hframes : (BitVec.ofNat 32 n * env.executeFrame).toNat = n * env.executeFrame.toNat := by
    rw [BitVec.toNat_mul, BitVec.toNat_ofNat, Nat.mod_mul_mod]
    exact Nat.mod_eq_of_lt (by omega)
  generalize n * env.executeFrame.toNat = frames at hdepth hframes ⊢
  rw [driftedEsp, BitVec.toNat_sub, BitVec.toNat_sub, htop, hframes, BitVec.toNat_ofNat]
  unfold pcbPtr at htop ⊢
  omega

/-- In every state of every run from boot, code of the running process that is `depth` bytes deep in
its kernel stack takes the PCB at the bottom of the stack for that of the process exactly if these
bytes and the frames left by the exits of its children fit into its 8 KB. -/
theorem fetchCurPcbPtr_iff {ram : BootRam} {r : ExecResult} {k₀ : Kernel} {es : List ProcessEvent}
    {depth : ℕ} (hshell : ValidShell env.img) (hentry : entry env ram = some (r, k₀))
    (hrun : exec (driftStep env) (.start k₀) es = some s)
    (hdepth : s.exits s.kernel.procs.currPid * env.executeFrame.toNat + depth ≤ 0x7F5FFC) :
    fetchCurPcbPtr (s.kernel.procs.tss.esp0 - BitVec.ofNat 32 depth) =
        BitVec.ofNat 32 (pcbPtr s.kernel.procs.currPid) ↔
      s.exits s.kernel.procs.currPid * env.executeFrame.toNat + depth ≤ 0x1FFC := by
  obtain ⟨S, hS⟩ := drifted_run hshell hentry hrun
  have hesp := @toNat_driftedEsp_sub env s.kernel.procs.currPid _ _ hdepth
  rw [hS.esp0, fetchCurPcbPtr_eq_iff]
  omega

/-- The shell of terminal 0 after one command, 64 bytes deep in a call. -/
theorem fetchCurPcbPtr_iff_sample :
    ∃ r k₀ s, entry sampleEnv zeroRam = some (r, k₀) ∧
      exec (driftStep sampleEnv) (.start k₀)
        [.execute (commandLine "shell") (fun _ => 0#8), .halt 0#8 (fun _ => 0#8)] = some s ∧
      fetchCurPcbPtr (s.kernel.procs.tss.esp0 - 64#32) = BitVec.ofNat 32 (pcbPtr 0) := by
  have hrun : (entry sampleEnv zeroRam).any fun x => (exec (driftStep sampleEnv) (.start x.2)
      [.execute (commandLine "shell") (fun _ => 0#8), .halt 0#8 (fun _ => 0#8)]).any fun s =>
      decide (s.kernel.procs.currPid = 0 ∧ s.exits 0 = 1) := by
    decide +kernel
  simp only [Option.any_eq_true, decide_eq_true_eq] at hrun
  obtain ⟨⟨r, k₀⟩, hentry, s, hs, hpid, hexits⟩ := hrun
  have hframes : s.exits s.kernel.procs.currPid * sampleEnv.executeFrame.toNat + 64 = 480 := by
    rw [hpid, hexits]
    rfl
  refine ⟨r, k₀, s, hentry, hs, ?_⟩
  rw [← hpid]
  exact (fetchCurPcbPtr_iff validShell_sampleImage hentry hs (by omega)).mpr (by omega)

end Ece391
