import Ece391Os.Process.Boot
import Ece391Os.Process.HaltSteps

/-!
# Preemption of `halt`

The timer interrupts a halting process between any two statements of `halt`, and the other terminals
launch and halt processes before it is scheduled again.

* `preemptStep` runs `halt` statement by statement, one on each terminal at most.
* `Waiting`: what the scheduler has saved for the terminals that do not run.
* `HaltSafe` is what preemption must not break: a task that is picked is busy and goes on where the
  latest tick interrupted it, and no new process gets the pid of a halting one.
* `Calm`: no tick switches while the process that halts has freed its pid and is still on its stack.
* `always_haltSafe`: along a run of calm ticks every step is safe. `not_haltSafe_after_free` is a
  tick that is not calm.
-/

namespace Ece391

open Transition

/-! ## The system -/

/-- The kernel, with the processes that are in `halt`: on each terminal the pid whose kernel stack
is used, and the next statement. `lastEsp` is the stack pointer stored by the latest tick that has
interrupted the terminal's task. -/
structure PreemptState where
  kernel : Kernel
  halting : TermId → Option (Pid × HaltPc)
  lastEsp : TermId → Option Word

/-- What can happen. -/
inductive PreemptEvent
  /-- The running process calls `execute`. -/
  | execute (command stack : Buffer)
  /-- The running root shell calls `halt`, which masks the timer in its call of `execute`. -/
  | haltRoot (status : Byte) (stack : Buffer)
  /-- Another running process calls `halt` and executes its first statement. -/
  | callHalt
  /-- The running process executes the next statement of `halt`. -/
  | statement
  /-- The timer interrupts the running process. -/
  | tick (schedEsp : Word)
  /-- The keyboard switches to a terminal. -/
  | switchTerm (toTerm : TermId)

/-- One step. A process in `halt` does nothing else. -/
def preemptStep (env : Env) (s : PreemptState) : PreemptEvent → Option PreemptState
  | .execute command stack =>
    -- a process that is in `halt` makes no other call
    if s.halting s.kernel.procs.currTerm = none then
      (execute env command stack s.kernel).map fun (_, kernel) => { s with kernel }
    else none
  | .haltRoot status stack =>
    if s.halting s.kernel.procs.currTerm = none ∧ IsRootPid s.kernel.procs.currPid then
      (halt env status stack s.kernel).map fun (_, kernel) => { s with kernel }
    else none
  | .callHalt =>
    -- `active_proc_num--` is the first statement, before the test for a root shell
    if s.halting s.kernel.procs.currTerm = none ∧ ¬ IsRootPid s.kernel.procs.currPid then
      some { s with
        kernel := { s.kernel with procs := s.kernel.procs.decActive }
        halting := Function.update s.halting s.kernel.procs.currTerm
          (some (s.kernel.procs.currPid, .checkRoot)) }
    else none
  | .statement => do
    let (p, pc) ← s.halting s.kernel.procs.currTerm
    -- `none` is the statement that leaves for the parent
    let (next, kernel) ← pc.run s.kernel
    some { s with
      kernel
      halting := Function.update s.halting s.kernel.procs.currTerm (next.map fun pc => (p, pc)) }
  | .tick schedEsp =>
    some { s with
      kernel := (contextSwitch schedEsp s.kernel).2
      lastEsp := Function.update s.lastEsp s.kernel.procs.currTerm (some schedEsp) }
  | .switchTerm toTerm => some { s with kernel := switchTerm toTerm s.kernel }

/-- The event launches process `i`. -/
def Launches (env : Env) (s : PreemptState) (i : Pid) : PreemptEvent → Prop
  | .execute command stack =>
    ∃ eip k', execute env command stack s.kernel = some (.userMode eip, k') ∧ k'.procs.currPid = i
  | .haltRoot status stack =>
    ∃ eip k', halt env status stack s.kernel = some (.respawned eip, k') ∧ k'.procs.currPid = i
  | _ => False

/-- What preemption must not break. -/
structure HaltSafe (env : Env) (s : PreemptState) (e : PreemptEvent) : Prop where
  /-- A task that `context_switch` picks is busy. -/
  busy : ∀ esp, e = .tick esp → ¬ s.kernel.procs.Stays →
    s.kernel.procs.pcbStatusArray (s.kernel.procs.terminal s.kernel.procs.taskList.head).pid ≠ 0#8
  /-- It goes on where the latest tick has interrupted it. -/
  resumes : ∀ esp last, e = .tick esp → ¬ s.kernel.procs.Stays →
    Function.update s.lastEsp s.kernel.procs.currTerm (some esp) s.kernel.procs.taskList.head =
      some last → (contextSwitch esp s.kernel).1 = .switchToProg last
  /-- A task that has not run yet is started. -/
  starts : ∀ esp, e = .tick esp → ¬ s.kernel.procs.Stays →
    Function.update s.lastEsp s.kernel.procs.currTerm (some esp) s.kernel.procs.taskList.head =
      none → ∃ eip, (contextSwitch esp s.kernel).1 = .executeRootShell eip
  /-- No new process gets the pid of a process that is still on its stack in `halt`. -/
  fresh : ∀ i s', preemptStep env s e = some s' → Launches env s i e →
    ∀ t p pc, s.halting t = some (p, pc) → i ≠ p

/-- The process of terminal `t` has not freed its pid. -/
def Settled (halting : TermId → Option (Pid × HaltPc)) (t : TermId) : Prop :=
  ∀ x ∈ halting t, x.2.freed = false

/-- No tick switches away from a process that has freed its pid and is still on its stack. -/
def Calm (s : PreemptState) : PreemptEvent → Prop
  | .tick _ => s.kernel.procs.Stays ∨ Settled s.halting s.kernel.procs.currTerm
  | _ => True

instance (halting : TermId → Option (Pid × HaltPc)) (t : TermId) :
    Decidable (Settled halting t) :=
  Option.decidableForallMem (halting t)

instance (s : PreemptState) : ∀ e, Decidable (Calm s e)
  | .tick _ => inferInstanceAs (Decidable (_ ∨ _))
  | .execute _ _ | .haltRoot _ _ | .callHalt | .statement | .switchTerm _ => .isTrue trivial

/-! ## What the scheduler has saved -/

namespace Procs

variable (ps : Procs) (i parent p : Pid)

@[simp]
theorem greatEsp_fill (cmd : Command) :
    ((ps.fill i cmd).pcbs p).greatEsp = (ps.pcbs p).greatEsp := by
  by_cases h : p = i <;> simp [fill, Pcb.init, h]

@[simp]
theorem shellFlag_block (e j : Word) :
    ((ps.block parent i e j).pcbs p).shellFlag = (ps.pcbs p).shellFlag := by
  by_cases h : p = parent <;> simp [block, h]

@[simp]
theorem greatEsp_block (e j : Word) :
    ((ps.block parent i e j).pcbs p).greatEsp = (ps.pcbs p).greatEsp := by
  by_cases h : p = parent <;> simp [block, h]

@[simp]
theorem shellFlag_interrupt (esp : Word) :
    ((ps.interrupt esp).pcbs p).shellFlag = (ps.pcbs p).shellFlag := by
  by_cases h : p = ps.currPid <;> simp [interrupt, h]

theorem greatEsp_interrupt (esp : Word) :
    ((ps.interrupt esp).pcbs p).greatEsp =
      if p = ps.currPid then esp else (ps.pcbs p).greatEsp := by
  by_cases h : p = ps.currPid <;> simp [interrupt, h]

theorem shellFlag_switchTo (t : TermId) :
    ((ps.switchTo t).pcbs p).shellFlag =
      if p = (ps.terminal t).pid then false else (ps.pcbs p).shellFlag := by
  by_cases h : p = (ps.terminal t).pid <;> simp [switchTo, h]

@[simp]
theorem greatEsp_switchTo (t : TermId) :
    ((ps.switchTo t).pcbs p).greatEsp = (ps.pcbs p).greatEsp := by
  by_cases h : p = (ps.terminal t).pid <;> simp [switchTo, h]

end Procs

/-- What the scheduler knows of the terminals that do not run: a root shell that has not run yet is
marked, and no other process is; every other task has its stack pointer in its PCB. -/
structure Waiting (ps : Procs) (lastEsp : TermId → Option Word) : Prop where
  /-- The running process is on no other terminal. -/
  own : ∀ t, t ≠ ps.currTerm → (ps.terminal t).pid ≠ ps.currPid
  flag : ∀ p, (ps.pcbs p).shellFlag = true →
    ∃ t, t ≠ ps.currTerm ∧ (ps.terminal t).pid = p ∧ lastEsp t = none
  unstarted : ∀ t, t ≠ ps.currTerm → lastEsp t = none →
    (ps.pcbs (ps.terminal t).pid).shellFlag = true
  saved : ∀ t last, t ≠ ps.currTerm → lastEsp t = some last →
    (ps.pcbs (ps.terminal t).pid).greatEsp = last

namespace Waiting

variable {ps ps' : Procs} {lastEsp : TermId → Option Word} {S : Forest}

/-- The other terminals keep their processes, and no PCB loses what the scheduler has saved. -/
theorem congr (h : Waiting ps lastEsp) (hterm : ps'.currTerm = ps.currTerm)
    (hown : ∀ t, t ≠ ps.currTerm → (ps.terminal t).pid ≠ ps'.currPid)
    (hpid : ∀ t, t ≠ ps.currTerm → (ps'.terminal t).pid = (ps.terminal t).pid)
    (hflag : ∀ p, (ps'.pcbs p).shellFlag = (ps.pcbs p).shellFlag)
    (hesp : ∀ p, (ps'.pcbs p).greatEsp = (ps.pcbs p).greatEsp) : Waiting ps' lastEsp where
  own t ht := by
    rw [hterm] at ht
    rw [hpid t ht]
    exact hown t ht
  flag p hp := by
    obtain ⟨t, ht, htp, hlast⟩ := h.flag p (hflag p ▸ hp)
    exact ⟨t, hterm ▸ ht, (hpid t ht).trans htp, hlast⟩
  unstarted t ht hlast := by
    rw [hterm] at ht
    rw [hflag, hpid t ht]
    exact h.unstarted t ht hlast
  saved t last ht hlast := by
    rw [hterm] at ht
    rw [hesp, hpid t ht]
    exact h.saved t last ht hlast

/-- A tick that does not switch. -/
theorem interrupt (h : Waiting ps lastEsp) (esp : Word) :
    Waiting (ps.interrupt esp) (Function.update lastEsp ps.currTerm (some esp)) where
  own := h.own
  flag p hp := by
    rw [Procs.shellFlag_interrupt] at hp
    obtain ⟨t, ht, htp, hlast⟩ := h.flag p hp
    exact ⟨t, ht, htp, by rwa [Function.update_of_ne ht]⟩
  unstarted t ht hlast := by
    have ht' : t ≠ ps.currTerm := ht
    rw [Function.update_of_ne ht'] at hlast
    rw [Procs.shellFlag_interrupt]
    exact h.unstarted t ht hlast
  saved t last ht hlast := by
    have ht' : t ≠ ps.currTerm := ht
    rw [Function.update_of_ne ht'] at hlast
    rw [Procs.greatEsp_interrupt, if_neg]
    · exact h.saved t last ht hlast
    · exact h.own t ht

/-- A tick that switches to the task of terminal `f`. -/
theorem switch (h : Waiting ps lastEsp) (hlayout : Layout ps S) (f : TermId) (esp : Word) :
    Waiting ((ps.interrupt esp).switchTo f)
      (Function.update lastEsp ps.currTerm (some esp)) := by
  have hterm : ((ps.interrupt esp).switchTo f).currTerm = f := hlayout.term f
  have hinj : ∀ {t}, (ps.terminal t).pid = (ps.terminal f).pid → t = f := hlayout.pid_injective
  constructor
  case own =>
    intro t ht heq
    rw [hterm] at ht
    exact ht (hinj heq)
  case flag =>
    intro p hp
    rw [Procs.shellFlag_switchTo, Procs.shellFlag_interrupt] at hp
    split_ifs at hp with hpf
    obtain ⟨t, ht, rfl, hlast⟩ := h.flag p hp
    -- a marked process is not the one that is switched to, which loses the mark
    refine ⟨t, ?_, rfl, by rwa [Function.update_of_ne ht]⟩
    rw [hterm]
    rintro rfl
    exact hpf rfl
  case unstarted =>
    intro t ht hlast
    rw [hterm] at ht
    -- the interrupted terminal has a stack pointer, so it is another one
    have hcurr : t ≠ ps.currTerm := by
      rintro rfl
      rw [Function.update_self] at hlast
      cases hlast
    rw [Function.update_of_ne hcurr] at hlast
    rw [Procs.shellFlag_switchTo, if_neg, Procs.shellFlag_interrupt]
    · exact h.unstarted t hcurr hlast
    · exact fun heq => ht (hinj heq)
  case saved =>
    intro t last ht hlast
    rw [Procs.greatEsp_switchTo, Procs.greatEsp_interrupt]
    by_cases hcurr : t = ps.currTerm
    · -- the interrupted terminal: the tick has just stored its stack pointer
      subst hcurr
      rw [Function.update_self] at hlast
      rw [if_pos]
      · exact Option.some.inj hlast
      · exact hlayout.currPid.symm
    · rw [Function.update_of_ne hcurr] at hlast
      rw [if_neg]
      · exact h.saved t last hcurr hlast
      · exact h.own t hcurr

/-- What is saved for the running terminal does not matter. -/
theorem lastEsp_congr {lastEsp' : TermId → Option Word} (h : Waiting ps lastEsp)
    (hsame : ∀ t, t ≠ ps.currTerm → lastEsp' t = lastEsp t) : Waiting ps lastEsp' where
  own := h.own
  flag p hp := by
    obtain ⟨t, ht, htp, hlast⟩ := h.flag p hp
    exact ⟨t, ht, htp, (hsame t ht).trans hlast⟩
  unstarted t ht hlast := h.unstarted t ht ((hsame t ht).symm.trans hlast)
  saved t last ht hlast := h.saved t last ht ((hsame t ht).symm.trans hlast)

/-- A task that has been interrupted is resumed where the latest tick has left it. -/
theorem resume_saved (h : Waiting ps lastEsp) (hlayout : Layout ps S) {t : TermId} {last : Word}
    (ht : t ≠ ps.currTerm) (hlast : lastEsp t = some last) (esp : Word) :
    (ps.interrupt esp).resume (ps.terminal t).pid = .switchToProg last := by
  -- a marked process has no stack pointer
  have hflag : (ps.pcbs (ps.terminal t).pid).shellFlag = false := by
    by_contra hflag
    obtain ⟨t', -, ht', hnone⟩ := h.flag _ (Bool.of_not_eq_false hflag)
    rw [hlayout.pid_injective ht', hlast] at hnone
    cases hnone
  rw [Procs.resume, Procs.shellFlag_interrupt, hflag, if_neg (by simp), Procs.greatEsp_interrupt,
    if_neg (h.own _ ht), h.saved _ last ht hlast]

/-- A task that has not been interrupted is started. -/
theorem resume_unstarted (h : Waiting ps lastEsp) {t : TermId} (ht : t ≠ ps.currTerm)
    (hlast : lastEsp t = none) (esp : Word) :
    ∃ eip, (ps.interrupt esp).resume (ps.terminal t).pid = .executeRootShell eip := by
  rw [Procs.resume, Procs.shellFlag_interrupt, h.unstarted _ ht hlast, if_pos rfl]
  exact ⟨_, rfl⟩

/-- At boot the root shells 1 and 2 are marked, and no other process if its memory is not. -/
theorem boot {env : Env} {ram : BootRam} {r : ExecResult} {k₀ : Kernel}
    (hshell : ValidShell env.img) (hentry : entry env ram = some (r, k₀))
    (hram : ∀ p, p ≠ 1 → p ≠ 2 → (ram.pcbs p).shellFlag = false) :
    Waiting k₀.procs fun _ => none := by
  have hspec := entry_spec hshell hentry
  have hlayout : Layout k₀.procs bootForest := hspec.exact.toLayout
  have hpid : ∀ t, (k₀.procs.terminal t).pid = rootPid t := fun t => by
    rw [hspec.terminal]
    rfl
  have hcurr : ∀ t, t ≠ k₀.procs.currTerm → t = 1 ∨ t = 2 := by
    rw [hspec.currTerm]
    decide
  constructor
  case own =>
    intro t ht heq
    rw [hlayout.currPid] at heq
    exact ht (hlayout.pid_injective heq)
  case flag =>
    intro p hp
    rw [hspec.shellFlag] at hp
    split_ifs at hp with hroot
    · -- the boot code marks these two, whatever the memory holds
      obtain ⟨t, rfl, ht⟩ : ∃ t, rootPid t = p ∧ t ≠ 0 := by
        rcases hroot with rfl | rfl
        · exact ⟨1, rfl, by decide⟩
        · exact ⟨2, rfl, by decide⟩
      exact ⟨t, fun heq => ht (heq.trans hspec.currTerm), hpid t, rfl⟩
    · rw [not_or] at hroot
      rw [hram p hroot.1 hroot.2] at hp
      cases hp
  case unstarted =>
    intro t ht _
    rw [hpid, hspec.shellFlag, if_pos]
    rcases hcurr t ht with rfl | rfl
    · exact Or.inl rfl
    · exact Or.inr rfl
  case saved =>
    intro t last _ hlast
    cases hlast

end Waiting

/-! ## The invariant -/

/-- The terminals whose process has called `halt` and has not freed its pid yet: `active_proc_num`
does not count it any more. -/
def pending (halting : TermId → Option (Pid × HaltPc)) : Finset TermId :=
  Finset.univ.filter fun t => (halting t).any (fun x => !x.2.freed) = true

/-- The process `p` of terminal `t` is in `halt`, before the statement that frees its pid. -/
structure Frame (ps : Procs) (t : TermId) (p : Pid) (pc : HaltPc) : Prop where
  pid : (ps.terminal t).pid = p
  notRoot : ¬ IsRootPid p
  curr : ∀ curr, pc = .parentPcbPtr curr → curr = p
  parent : ∀ parent, pc = .pcbStatus parent → parent = ps.parent p

/-- The invariant: the stacks of the terminals, with a process that has freed its pid off its stack,
and the processes in `halt` that have not freed it missing from the counter. -/
structure Preempted (ps : Procs) (halting : TermId → Option (Pid × HaltPc))
    (lastEsp : TermId → Option Word) (S : Forest) : Prop where
  layout : Settled halting ps.currTerm → Layout ps S
  returning : ∀ p pc, halting ps.currTerm = some (p, pc) → pc.freed = true →
    ∃ q, Returning ps S pc q
  others : ∀ t, t ≠ ps.currTerm → Settled halting t
  frame : ∀ t p pc, halting t = some (p, pc) → pc.freed = false → Frame ps t p pc
  num : ps.activeProcNum + BitVec.ofNat 8 (pending halting).card = BitVec.ofNat 8 S.size
  waiting : Waiting ps lastEsp

theorem mem_pending {halting : TermId → Option (Pid × HaltPc)} {t : TermId} :
    t ∈ pending halting ↔ ∃ p pc, halting t = some (p, pc) ∧ pc.freed = false := by
  simp [pending, Option.any_eq_true]

theorem settled_of_none {halting : TermId → Option (Pid × HaltPc)} {t : TermId}
    (h : halting t = none) : Settled halting t := by
  intro x hx
  rw [h] at hx
  cases hx

theorem settled_of_some {halting : TermId → Option (Pid × HaltPc)} {t : TermId} {p : Pid}
    {pc : HaltPc} (h : halting t = some (p, pc)) (hpc : pc.freed = false) : Settled halting t := by
  intro x hx
  rw [h] at hx
  cases hx
  exact hpc

/-- A process enters `halt`, or goes on before the statement that frees its pid. -/
theorem pending_update_insert {halting : TermId → Option (Pid × HaltPc)} {t : TermId} {p : Pid}
    {pc : HaltPc} (hpc : pc.freed = false) :
    pending (Function.update halting t (some (p, pc))) = insert t (pending halting) := by
  ext t'
  by_cases ht : t' = t
  · subst ht
    simp [pending, hpc]
  · simp [pending, ht]

/-- A process frees its pid, or goes on from there. -/
theorem pending_update_erase {halting : TermId → Option (Pid × HaltPc)} {t : TermId}
    {x : Option (Pid × HaltPc)} (hx : ∀ y ∈ x, y.2.freed = true) :
    pending (Function.update halting t x) = (pending halting).erase t := by
  ext t'
  by_cases ht : t' = t
  · subst ht
    cases x with
    | none => simp [pending]
    | some y => simp [pending, hx y rfl]
  · simp [pending, ht]

theorem Frame.congr {ps ps' : Procs} {t : TermId} {p : Pid} {pc : HaltPc} (h : Frame ps t p pc)
    (hpid : (ps'.terminal t).pid = (ps.terminal t).pid) (hparent : ps'.parent p = ps.parent p) :
    Frame ps' t p pc :=
  ⟨hpid.trans h.pid, h.notRoot, h.curr, fun parent hpc => (h.parent parent hpc).trans hparent.symm⟩

namespace Preempted

variable {ps ps' : Procs} {halting halting' : TermId → Option (Pid × HaltPc)}
  {lastEsp : TermId → Option Word} {S S' : Forest} {i p : Pid} {pc pc' : HaltPc}

/-- The process of a pending terminal is not a root shell. -/
theorem one_lt_length (h : Preempted ps halting lastEsp S)
    (hsettled : Settled halting ps.currTerm) {t : TermId} (ht : t ∈ pending halting) :
    1 < (S.stack t).length := by
  obtain ⟨p, pc, hhalting, hpc⟩ := mem_pending.mp ht
  have hframe := h.frame t p pc hhalting hpc
  have hwalk := (h.layout hsettled).walk t
  rw [hframe.pid] at hwalk
  -- a process that is no root shell has its parent below it on the stack
  obtain ⟨q, l, hstack, -⟩ := hwalk.exists_tail hframe.notRoot
  simp [hstack]

/-- The counter is still high enough for the test of `execute`. -/
theorem newParent_eq (h : Preempted ps halting lastEsp S)
    (hsettled : Settled halting ps.currTerm) (hi : ps.pcbStatusArray i = 0#8) (page : Buffer) :
    (ps.take i page).newParent = some ps.currPid := by
  have hlt := Forest.size_lt_six ((h.layout hsettled).not_mem_of_free hi)
  -- each pending process is missing from the counter, but its stack has two processes at least
  have hge := RootedStacks.card_add_card_le_size fun t => h.one_lt_length hsettled (t := t)
  rw [Fintype.card_fin] at hge
  have hnum := congrArg BitVec.toNat h.num
  rw [BitVec.toNat_add, BitVec.toNat_ofNat, BitVec.toNat_ofNat] at hnum
  have hbyte := ps.activeProcNum.isLt
  have hthree : ps.activeProcNum + 1#8 > 3#8 := by
    rw [gt_iff_lt, BitVec.lt_def, BitVec.toNat_add]
    simp only [BitVec.toNat_ofNat]
    omega
  rw [Procs.newParent, if_pos (by exact hthree)]
  rfl

/-- A whole call of the running process, which is not in `halt`. -/
theorem call (h : Preempted ps halting lastEsp S) (hidle : halting ps.currTerm = none)
    (hlayout : Layout ps' S') (hterm : ps'.currTerm = ps.currTerm)
    (hpid : ∀ t, t ≠ ps.currTerm → (ps'.terminal t).pid = (ps.terminal t).pid)
    (hparent : ∀ p, ¬ IsRootPid p → S.Mem p → ps'.parent p = ps.parent p)
    (hflag : ∀ p, (ps'.pcbs p).shellFlag = (ps.pcbs p).shellFlag)
    (hesp : ∀ p, (ps'.pcbs p).greatEsp = (ps.pcbs p).greatEsp)
    (hnum : ps'.activeProcNum + BitVec.ofNat 8 S.size =
      ps.activeProcNum + BitVec.ofNat 8 S'.size) :
    Preempted ps' halting lastEsp S' := by
  have hsettled := settled_of_none hidle
  constructor
  case layout => exact fun _ => hlayout
  case returning =>
    intro p pc hhalting
    rw [hterm, hidle] at hhalting
    cases hhalting
  case others => exact fun t ht => h.others t (hterm ▸ ht)
  case frame =>
    intro t p pc hhalting hpc
    -- the caller is not in `halt`, so the frame is of another terminal
    have ht : t ≠ ps.currTerm := by
      rintro rfl
      rw [hidle] at hhalting
      cases hhalting
    have hframe := h.frame t p pc hhalting hpc
    refine hframe.congr (hpid t ht) (hparent p hframe.notRoot ⟨t, ?_⟩)
    rw [← hframe.pid]
    exact (h.layout hsettled).pid_mem t
  case num =>
    have hold := h.num
    bv_omega
  case waiting =>
    refine h.waiting.congr hterm (fun t ht heq => ?_) hpid hflag hesp
    -- the running process is on one terminal only, after the call as before it
    rw [← hpid t ht, hlayout.currPid, hterm] at heq
    exact ht (hlayout.pid_injective heq)

/-- The process of the current terminal is in `halt` and has not freed its pid. -/
theorem setFrame (h : Preempted ps halting lastEsp S) (hsettled : Settled halting ps.currTerm)
    (hframe : Frame ps ps.currTerm p pc) (hpc : pc.freed = false) {n : Byte}
    (hnum : n + BitVec.ofNat 8 (insert ps.currTerm (pending halting)).card =
      BitVec.ofNat 8 S.size) :
    Preempted { ps with activeProcNum := n }
      (Function.update halting ps.currTerm (some (p, pc))) lastEsp S := by
  have hself : Function.update halting ps.currTerm (some (p, pc)) ps.currTerm = some (p, pc) :=
    Function.update_self _ _ _
  have hlayout := h.layout hsettled
  constructor
  case layout =>
    exact fun _ => hlayout.congr (fun _ _ _ => rfl) (fun _ => rfl) hlayout.busy hlayout.thePid
      hlayout.mapped hlayout.currPid hlayout.cr3 hlayout.activeRootShell hlayout.term
  case returning =>
    intro p' pc' hhalting hfreed
    cases hself.symm.trans hhalting
    rw [hpc] at hfreed
    cases hfreed
  case others =>
    intro t ht x hx
    rw [Function.update_of_ne ht] at hx
    exact h.others t ht x hx
  case frame =>
    intro t p' pc' hhalting hpc'
    -- the frame of the running process is new, the other ones stay
    by_cases ht : t = ps.currTerm
    · subst ht
      cases hself.symm.trans hhalting
      exact hframe.congr rfl rfl
    · rw [Function.update_of_ne ht] at hhalting
      exact (h.frame t p' pc' hhalting hpc').congr rfl rfl
  case num =>
    rw [pending_update_insert hpc]
    exact hnum
  case waiting =>
    exact h.waiting.congr rfl h.waiting.own (fun _ _ => rfl) (fun _ => rfl) fun _ => rfl

/-- A call of `halt`: its first statement takes the process off the counter. -/
theorem callHalt (h : Preempted ps halting lastEsp S) (hidle : halting ps.currTerm = none)
    (hroot : ¬ IsRootPid ps.currPid) :
    Preempted ps.decActive
      (Function.update halting ps.currTerm (some (ps.currPid, .checkRoot))) lastEsp S := by
  have hsettled := settled_of_none hidle
  have hlayout := h.layout hsettled
  have hframe : Frame ps ps.currTerm ps.currPid .checkRoot :=
    ⟨hlayout.currPid.symm, hroot, fun _ h => by simp at h, fun _ h => by simp at h⟩
  apply h.setFrame hsettled hframe rfl
  -- one less on the counter, one more pending
  have hnot : ps.currTerm ∉ pending halting := by
    intro hmem
    obtain ⟨p, pc, hhalting, -⟩ := mem_pending.mp hmem
    rw [hidle] at hhalting
    cases hhalting
  have hnum := h.num
  rw [Finset.card_insert_of_notMem hnot, BitVec.ofNat_add]
  bv_omega

/-- A statement before the one that frees the pid: it reads, and the table stays as it is. -/
theorem read (h : Preempted ps halting lastEsp S) (hhalting : halting ps.currTerm = some (p, pc))
    (hpc : pc.freed = false) (hframe : Frame ps ps.currTerm p pc') (hpc' : pc'.freed = false) :
    Preempted ps (Function.update halting ps.currTerm (some (p, pc'))) lastEsp S := by
  -- the process is pending already
  have hmem : ps.currTerm ∈ pending halting := mem_pending.mpr ⟨p, pc, hhalting, hpc⟩
  have hset := h.setFrame (settled_of_some hhalting hpc) hframe hpc' (n := ps.activeProcNum)
    (by rw [Finset.insert_eq_of_mem hmem]; exact h.num)
  exact hset

/-- The process of the current terminal is off its stack: it returns to its parent, or has
returned. -/
theorem setReturning (h : Preempted ps halting lastEsp S) {x : Option (Pid × HaltPc)}
    (hlayout : x = none → Layout ps' S')
    (hreturning : ∀ p pc, x = some (p, pc) → ∃ q, Returning ps' S' pc q)
    (hpcbs : ps'.pcbs = ps.pcbs) (hterm : ps'.currTerm = ps.currTerm)
    (hterminal : ∀ t, t ≠ ps.currTerm → ps'.terminal t = ps.terminal t)
    (hown : ∀ t, t ≠ ps.currTerm → (ps.terminal t).pid ≠ ps'.currPid)
    (hnum : ps'.activeProcNum + BitVec.ofNat 8 ((pending halting).erase ps.currTerm).card =
      BitVec.ofNat 8 S'.size) :
    Preempted ps' (Function.update halting ps.currTerm x) lastEsp S' := by
  have hfreed : ∀ y ∈ x, y.2.freed = true := by
    rintro ⟨p, pc⟩ hy
    obtain ⟨q, hq⟩ := hreturning p pc hy
    exact HaltPc.freed_of_parent hq.parent
  have hparent : ∀ p, ps'.parent p = ps.parent p := by
    intro p
    rw [Procs.parent, Procs.parent, hpcbs]
  constructor
  case layout =>
    intro hsettled
    rw [hterm] at hsettled
    cases x with
    | none => exact hlayout rfl
    | some y =>
      -- a process that has freed its pid does not leave its terminal settled
      have hself := hsettled y (Function.update_self _ _ _)
      rw [hfreed y rfl] at hself
      cases hself
  case returning =>
    intro p pc hhalting hpc
    rw [hterm, Function.update_self] at hhalting
    exact hreturning p pc hhalting
  case others =>
    intro t ht y hy
    rw [hterm] at ht
    rw [Function.update_of_ne ht] at hy
    exact h.others t ht y hy
  case frame =>
    intro t p pc hhalting hpc
    by_cases ht : t = ps.currTerm
    · subst ht
      rw [Function.update_self] at hhalting
      -- nor has it a frame any more
      have hself := hfreed (p, pc) hhalting
      rw [hpc] at hself
      cases hself
    · rw [Function.update_of_ne ht] at hhalting
      exact (h.frame t p pc hhalting hpc).congr (by rw [hterminal t ht]) (hparent p)
  case num =>
    rw [pending_update_erase hfreed]
    exact hnum
  case waiting =>
    exact h.waiting.congr hterm hown (fun t ht => by rw [hterminal t ht])
      (fun p => by rw [hpcbs]) fun p => by rw [hpcbs]

/-- The statement that frees the pid. -/
theorem free {k k' : Kernel} {parent : Option Pid} {next : Option HaltPc}
    (h : Preempted k.procs halting lastEsp S)
    (hhalting : halting k.procs.currTerm = some (p, .pcbStatus parent))
    (hrun : (HaltPc.pcbStatus parent).run k = some (next, k')) :
    ∃ S', Preempted k'.procs
      (Function.update halting k.procs.currTerm (next.map fun pc => (p, pc))) lastEsp S' := by
  have hlayout := h.layout (settled_of_some hhalting rfl)
  have hframe := h.frame _ _ _ hhalting rfl
  have hpid : k.procs.currPid = p := hlayout.currPid.trans hframe.pid
  obtain ⟨q, hlen, hq, hreturning⟩ := Returning.start hlayout (hpid ▸ hframe.notRoot)
  -- the parent that an earlier statement has read is still the parent
  obtain rfl : parent = some q := by
    rw [hframe.parent parent rfl, ← hpid]
    exact hq
  cases hrun
  refine ⟨S.pop k.procs.currTerm hlen,
    h.setReturning (fun h => by simp at h) (fun p pc hx => ?_) rfl rfl (fun _ _ => rfl)
    h.waiting.own ?_⟩
  · cases hx
    exact ⟨q, hreturning⟩
  · -- the process leaves the stack, and its terminal the pending ones
    have hmem : k.procs.currTerm ∈ pending halting := mem_pending.mpr ⟨p, _, hhalting, rfl⟩
    have hnum := h.num
    rw [← RootedStacks.size_pop hlen, ← Finset.card_erase_add_one hmem, BitVec.ofNat_add,
      BitVec.ofNat_add] at hnum
    simp only
    bv_omega

/-- A statement after that. -/
theorem unwind {k k' : Kernel} {next : Option HaltPc} (h : Preempted k.procs halting lastEsp S)
    (hhalting : halting k.procs.currTerm = some (p, pc)) (hpc : pc.freed = true)
    (hrun : pc.run k = some (next, k')) :
    Preempted k'.procs
      (Function.update halting k.procs.currTerm (next.map fun pc => (p, pc))) lastEsp S := by
  obtain ⟨q, hreturning⟩ := h.returning p pc hhalting hpc
  have hkeeps := HaltPc.keeps hrun
  refine h.setReturning (fun hnone => ?_) (fun p' pc' hx => ?_) hkeeps.pcbs hkeeps.currTerm
    hkeeps.terminal (fun t ht => ?_) ?_
  · -- the last statement: the parent runs again, and the table lays out stacks
    obtain rfl := Option.map_eq_none_iff.mp hnone
    exact hreturning.exit hrun
  · obtain ⟨pc'', rfl, hpc''⟩ := Option.map_eq_some_iff.mp hx
    cases hpc''
    exact ⟨q, hreturning.run hrun⟩
  · rcases hkeeps.currPid with hsame | ⟨q', rfl, hnew⟩
    · rw [hsame]
      exact h.waiting.own t ht
    · -- `curr_pid` is assigned the parent, which is on the same terminal
      cases hreturning.parent
      rw [hnew, hreturning.thePid]
      exact hreturning.pid_ne ht
  · -- the process is not pending, so the counter does not change
    have hnot : k.procs.currTerm ∉ pending halting := by
      intro hmem
      obtain ⟨p', pc', hhalting', hpc'⟩ := mem_pending.mp hmem
      cases hhalting.symm.trans hhalting'
      rw [hpc] at hpc'
      cases hpc'
    rw [Finset.erase_eq_of_notMem hnot, hkeeps.activeProcNum]
    exact h.num

/-- A tick that does not switch, or interrupts a process that has not freed its pid. -/
theorem tick {k : Kernel} (h : Preempted k.procs halting lastEsp S)
    (hcalm : k.procs.Stays ∨ Settled halting k.procs.currTerm) (esp : Word) :
    Preempted (contextSwitch esp k).2.procs halting
      (Function.update lastEsp k.procs.currTerm (some esp)) S := by
  rw [procs_contextSwitch]
  split_ifs with hstays
  · constructor
    case layout => exact fun hsettled => (h.layout hsettled).interrupt esp
    case returning =>
      intro p pc hhalting hpc
      obtain ⟨q, hq⟩ := h.returning p pc hhalting hpc
      exact ⟨q, hq.interrupt esp⟩
    case others => exact h.others
    case frame =>
      intro t p pc hhalting hpc
      exact (h.frame t p pc hhalting hpc).congr rfl (Procs.parent_interrupt _ _ _)
    case num => exact h.num
    case waiting => exact h.waiting.interrupt esp
  · -- every terminal is settled, the interrupted one because the tick is calm
    have hsettled := hcalm.resolve_left hstays
    have hlayout := h.layout hsettled
    have hterm : ((k.procs.interrupt esp).switchTo k.procs.taskList.head).currTerm =
        k.procs.taskList.head := hlayout.term _
    have hothers : ∀ t, Settled halting t := by
      intro t
      by_cases ht : t = k.procs.currTerm
      · exact ht ▸ hsettled
      · exact h.others t ht
    constructor
    case layout => exact fun _ => (hlayout.interrupt esp).switchTo _
    case returning =>
      intro p pc hhalting hpc
      rw [hterm] at hhalting
      have hfreed := hothers _ _ hhalting
      rw [hpc] at hfreed
      cases hfreed
    case others => exact fun t _ => hothers t
    case frame =>
      intro t p pc hhalting hpc
      refine (h.frame t p pc hhalting hpc).congr rfl ?_
      rw [Procs.parent_switchTo, Procs.parent_interrupt]
    case num => exact h.num
    case waiting => exact h.waiting.switch hlayout _ esp

theorem switchTerm {k : Kernel} (h : Preempted k.procs halting lastEsp S) (t : TermId) :
    Preempted (switchTerm t k).procs halting lastEsp S := by
  rw [procs_switchTerm]
  split_ifs
  · exact h
  · have hpid := k.procs.pid_activate t
    constructor
    case layout => exact fun hsettled => (h.layout hsettled).activate t
    case returning =>
      intro p pc hhalting hpc
      obtain ⟨q, hq⟩ := h.returning p pc hhalting hpc
      exact ⟨q, hq.activate t⟩
    case others => exact h.others
    case frame =>
      intro t' p pc hhalting hpc
      exact (h.frame t' p pc hhalting hpc).congr (hpid t') rfl
    case num => exact h.num
    case waiting =>
      exact h.waiting.congr rfl h.waiting.own (fun t' _ => hpid t') (fun _ => rfl) fun _ => rfl

section

variable {env : Env} {k k' : Kernel}

/-- A call of `execute`. -/
theorem execute {command stack : Buffer} {r : ExecResult} (h : Preempted k.procs halting lastEsp S)
    (hidle : halting k.procs.currTerm = none)
    (hx : execute env command stack k = some (r, k')) :
    ∃ S', Preempted k'.procs halting lastEsp S' := by
  have hsettled := settled_of_none hidle
  have hlayout := h.layout hsettled
  rcases hlayout.execute_cases (h.newParent_eq hsettled) hx with ⟨_, -, hprocs⟩ |
    ⟨_, _, i, page, -, -, -, hi, -, hprocs⟩ | ⟨cmd, _, i, page, -, hi, -, hprocs⟩
  · -- the call returns -1, with the table as it was
    exact ⟨S, hprocs ▸ h⟩
  · -- the call fails after it has taken a pid, which stays taken
    refine ⟨S, hprocs ▸ h.call hidle (hlayout.leak hi page) rfl (fun _ _ => rfl)
      (fun _ _ _ => rfl) (fun _ => rfl) (fun _ => rfl) rfl⟩
  · -- a new process is on top of the stack
    have hmem := hlayout.not_mem_of_free hi
    have hnew := h.newParent_eq hsettled hi page
    refine ⟨_, hprocs ▸ h.call hidle (hlayout.launch hi page hnew cmd _ _) rfl (fun t ht => ?_)
      (fun p _ hp => ?_) (fun p => ?_) (fun p => ?_) ?_⟩
    · simp [Procs.block, Procs.enter, Procs.fill, Procs.take, ht]
    · rw [Procs.parent_block, Procs.parent_enter, Procs.parent_fill, if_neg, Procs.parent_take]
      -- the new pid was free, so it is on no stack
      rintro rfl
      exact hmem hp
    · rw [Procs.shellFlag_block, Procs.pcbs_enter, Procs.shellFlag_fill, Procs.pcbs_take]
    · rw [Procs.greatEsp_block, Procs.pcbs_enter, Procs.greatEsp_fill, Procs.pcbs_take]
    · rw [RootedStacks.size_push, BitVec.ofNat_add, BitVec.add_comm (BitVec.ofNat 8 S.size),
        ← BitVec.add_assoc]
      rfl

/-- A call of `halt` by a root shell. -/
theorem haltRoot {status : Byte} {stack : Buffer} {r : HaltResult} (hshell : ValidShell env.img)
    (h : Preempted k.procs halting lastEsp S) (hidle : halting k.procs.currTerm = none)
    (hroot : IsRootPid k.procs.currPid) (hx : halt env status stack k = some (r, k')) :
    ∃ S', Preempted k'.procs halting lastEsp S' := by
  have hlayout := h.layout (settled_of_none hidle)
  rcases hlayout.halt_cases hshell hx with ⟨-, cmd, _, page, -, hprocs⟩ | ⟨hno, -⟩
  · -- the root shell is started again in its own PCB
    refine ⟨S, hprocs ▸ h.call hidle (hlayout.respawn hroot page cmd) rfl (fun _ _ => rfl)
      (fun p hp _ => ?_) (fun p => ?_) (fun p => ?_) ?_⟩
    · rw [Procs.parent_enter, Procs.parent_fill, if_neg]
      · rfl
      · rintro rfl
        exact hp hroot
    · rw [Procs.pcbs_enter, Procs.shellFlag_fill]
      rfl
    · rw [Procs.pcbs_enter, Procs.greatEsp_fill]
      rfl
    · have hnum : k.procs.activeProcNum - 1#8 + 1#8 = k.procs.activeProcNum :=
        BitVec.sub_add_cancel _ _
      exact congrArg (· + BitVec.ofNat 8 S.size) hnum
  · exact absurd hroot hno

/-- A statement of `halt`. -/
theorem statement {next : Option HaltPc} (h : Preempted k.procs halting lastEsp S)
    (hhalting : halting k.procs.currTerm = some (p, pc)) (hrun : pc.run k = some (next, k')) :
    ∃ S', Preempted k'.procs
      (Function.update halting k.procs.currTerm (next.map fun pc => (p, pc))) lastEsp S' := by
  cases hpc : pc.freed with
  | true => exact ⟨S, h.unwind hhalting hpc hrun⟩
  | false =>
    have hframe := h.frame _ _ _ hhalting hpc
    have hlayout := h.layout (settled_of_some hhalting hpc)
    cases pc with
    | checkRoot =>
      -- the test for a root shell fails, because the process is none
      rw [HaltPc.run] at hrun
      split_ifs at hrun
      cases hrun
      exact ⟨S, h.read hhalting rfl
        ⟨hframe.pid, hframe.notRoot, fun _ h => by simp at h, fun _ h => by simp at h⟩ rfl⟩
    | currPcbPtr =>
      cases hrun
      refine ⟨S, h.read hhalting rfl ⟨hframe.pid, hframe.notRoot, fun curr hcurr => ?_,
        fun _ h => by simp at h⟩ rfl⟩
      cases hcurr
      -- `curr_pid` is the halting process whenever its terminal runs
      exact hlayout.currPid.trans hframe.pid
    | parentPcbPtr curr =>
      cases hrun
      refine ⟨S, h.read hhalting rfl ⟨hframe.pid, hframe.notRoot, fun _ h => by simp at h,
        fun parent hparent => ?_⟩ rfl⟩
      cases hparent
      rw [hframe.curr curr rfl]
      rfl
    | pcbStatus parent => exact h.free hhalting hrun
    | _ => cases hpc

end

end Preempted

/-! ## Runs -/

namespace PreemptState

variable {env : Env} {s s' : PreemptState} {e : PreemptEvent} {S : Forest}

/-- The invariant of a state. -/
def Inv (s : PreemptState) : Prop := ∃ S, Preempted s.kernel.procs s.halting s.lastEsp S

/-- Every calm step keeps the invariant. -/
theorem Inv.preemptStep (hshell : ValidShell env.img) (h : s.Inv) (hcalm : Calm s e)
    (hstep : preemptStep env s e = some s') : s'.Inv := by
  obtain ⟨S, h⟩ := h
  cases e with
  | execute command stack =>
    simp only [Ece391.preemptStep] at hstep
    split_ifs at hstep with hidle
    obtain ⟨⟨r, k'⟩, hx, rfl⟩ := Option.map_eq_some_iff.mp hstep
    exact h.execute hidle hx
  | haltRoot status stack =>
    simp only [Ece391.preemptStep] at hstep
    split_ifs at hstep with hidle
    obtain ⟨⟨r, k'⟩, hx, rfl⟩ := Option.map_eq_some_iff.mp hstep
    exact h.haltRoot hshell hidle.1 hidle.2 hx
  | callHalt =>
    simp only [Ece391.preemptStep] at hstep
    split_ifs at hstep with hidle
    cases hstep
    exact ⟨S, h.callHalt hidle.1 hidle.2⟩
  | statement =>
    obtain ⟨⟨p, pc⟩, hhalting, hstep⟩ := Option.bind_eq_some_iff.mp hstep
    obtain ⟨⟨next, k'⟩, hrun, hstep⟩ := Option.bind_eq_some_iff.mp hstep
    cases hstep
    exact h.statement hhalting hrun
  | tick esp =>
    cases hstep
    exact ⟨S, h.tick hcalm esp⟩
  | switchTerm t =>
    cases hstep
    exact ⟨S, h.switchTerm t⟩

/-- In a state of the invariant, a calm event is safe. -/
theorem Inv.haltSafe (hshell : ValidShell env.img) (h : s.Inv) (hcalm : Calm s e) :
    HaltSafe env s e := by
  obtain ⟨S, h⟩ := h
  -- a tick that switches leaves a settled terminal, for another one
  have hpick : ∀ esp, e = .tick esp → ¬ s.kernel.procs.Stays →
      Layout s.kernel.procs S ∧ s.kernel.procs.taskList.head ≠ s.kernel.procs.currTerm := by
    rintro esp rfl hstays
    have hlayout := h.layout (hcalm.resolve_left hstays)
    refine ⟨hlayout, fun heq => hstays (Or.inl ?_)⟩
    rw [heq]
    exact hlayout.currPid.symm
  have hresume : ∀ esp, ¬ s.kernel.procs.Stays → (contextSwitch esp s.kernel).1 =
      (s.kernel.procs.interrupt esp).resume
        (s.kernel.procs.terminal s.kernel.procs.taskList.head).pid := by
    intro esp hstays
    rw [contextSwitch, if_neg hstays]
  constructor
  case busy =>
    intro esp he hstays
    obtain ⟨hlayout, -⟩ := hpick esp he hstays
    exact hlayout.busy _ _ (hlayout.pid_mem _)
  case resumes =>
    intro esp last he hstays hlast
    obtain ⟨hlayout, hhead⟩ := hpick esp he hstays
    rw [Function.update_of_ne hhead] at hlast
    rw [hresume esp hstays]
    exact h.waiting.resume_saved hlayout hhead hlast esp
  case starts =>
    intro esp he hstays hlast
    obtain ⟨-, hhead⟩ := hpick esp he hstays
    rw [Function.update_of_ne hhead] at hlast
    rw [hresume esp hstays]
    exact h.waiting.resume_unstarted hhead hlast esp
  case fresh =>
    intro i s' hstep hlaunch t p pc hhalting
    -- the processes in `halt` are on their stacks, on terminals that do not run
    have hmem : s.halting s.kernel.procs.currTerm = none → ¬ IsRootPid p ∧ S.Mem p := by
      intro hidle
      have ht : t ≠ s.kernel.procs.currTerm := by
        rintro rfl
        rw [hidle] at hhalting
        cases hhalting
      have hframe := h.frame t p pc hhalting (h.others t ht _ hhalting)
      refine ⟨hframe.notRoot, t, ?_⟩
      rw [← hframe.pid]
      exact (h.layout (settled_of_none hidle)).pid_mem t
    cases e with
    | execute command stack =>
      simp only [Ece391.preemptStep] at hstep
      split_ifs at hstep with hidle
      obtain ⟨eip, k', hx, rfl⟩ := hlaunch
      have hlayout := h.layout (settled_of_none hidle)
      rcases hlayout.execute_cases (h.newParent_eq (settled_of_none hidle)) hx with
        ⟨_, hr, -⟩ | ⟨_, _, i, page, -, -, -, -, hr, -⟩ | ⟨cmd, _, i, page, -, hi, -, hprocs⟩
      · cases hr
      · cases hr
      · rw [hprocs]
        rintro rfl
        -- the new pid was free, and the halting process is on a stack
        exact hlayout.not_mem_of_free hi (hmem hidle).2
    | haltRoot status stack =>
      simp only [Ece391.preemptStep] at hstep
      split_ifs at hstep with hidle
      obtain ⟨eip, k', hx, rfl⟩ := hlaunch
      have hlayout := h.layout (settled_of_none hidle.1)
      rcases hlayout.halt_cases hshell hx with ⟨hroot, cmd, _, page, -, hprocs⟩ | ⟨hno, -⟩
      · rw [hprocs]
        rintro rfl
        -- the pid is that of a root shell, and the halting process is none
        exact (hmem hidle.1).1 hroot
      · exact absurd hidle.2 hno
    | callHalt | statement | tick | switchTerm => exact hlaunch.elim

end PreemptState

/-- The system that has booted: no process is in `halt`, and none has been interrupted. -/
def PreemptState.boot (k : Kernel) : PreemptState where
  kernel := k
  halting _ := none
  lastEsp _ := none

theorem PreemptState.Inv.boot {env : Env} {ram : BootRam} {r : ExecResult} {k₀ : Kernel}
    (hshell : ValidShell env.img) (hentry : entry env ram = some (r, k₀))
    (hflag : ∀ p, p ≠ 1 → p ≠ 2 → (ram.pcbs p).shellFlag = false) :
    PreemptState.Inv (.boot k₀) := by
  have hspec := entry_spec hshell hentry
  refine ⟨bootForest, fun _ => hspec.exact.toLayout, fun p pc h => (by cases h),
    fun _ _ => settled_of_none rfl, fun t p pc h => (by cases h), ?_, .boot hshell hentry hflag⟩
  -- nothing is pending
  have hnone : pending (PreemptState.boot k₀).halting = ∅ :=
    Finset.filter_eq_empty_iff.mpr fun _ _ => by simp [PreemptState.boot]
  rw [hnone, Finset.card_empty]
  exact (BitVec.add_zero _).trans hspec.exact.activeProcNum

/-- Along every run from boot in which no tick switches away from a process that has freed its pid,
every step is safe, if the PCBs of the processes that are not started by the scheduler are not
marked in the memory at boot. -/
theorem always_haltSafe {env : Env} {ram : BootRam} {r : ExecResult} {k₀ : Kernel}
    {es : List PreemptEvent} (hshell : ValidShell env.img) (hentry : entry env ram = some (r, k₀))
    (hflag : ∀ p, p ≠ 1 → p ≠ 2 → (ram.pcbs p).shellFlag = false)
    (hcalm : Along (preemptStep env) Calm (.boot k₀) es) :
    Along (preemptStep env) (HaltSafe env) (.boot k₀) es := by
  have hboot : PreemptState.Inv (.boot k₀) := PreemptState.Inv.boot hshell hentry hflag
  exact along_of_invariant (I := PreemptState.Inv)
    (fun s e s' h hcalm hstep => h.preemptStep hshell hcalm hstep)
    (fun s e h hcalm => h.haltSafe hshell hcalm) hboot hcalm

/-- The process of terminal 0 is interrupted in `halt` before it has freed its pid, and terminal 1
launches a process meanwhile. -/
theorem always_haltSafe_sample :
    ∃ r k₀, entry sampleEnv zeroRam = some (r, k₀) ∧
      Along (preemptStep sampleEnv) (HaltSafe sampleEnv) (.boot k₀)
        ([.execute (commandLine "shell") (fun _ => 0#8), .switchTerm 1, .tick 0x1000#32,
          .callHalt, .statement, .tick 0x2000#32,
          .execute (commandLine "shell") (fun _ => 0#8), .tick 0x3000#32, .tick 0x4000#32] ++
          List.replicate 13 .statement) := by
  have hrun : (entry sampleEnv zeroRam).any fun x =>
      decide (Along (preemptStep sampleEnv) Calm (.boot x.2)
        ([.execute (commandLine "shell") (fun _ => 0#8), .switchTerm 1, .tick 0x1000#32,
          .callHalt, .statement, .tick 0x2000#32,
          .execute (commandLine "shell") (fun _ => 0#8), .tick 0x3000#32, .tick 0x4000#32] ++
          List.replicate 13 .statement)) := by
    decide +kernel
  simp only [Option.any_eq_true, decide_eq_true_eq] at hrun
  obtain ⟨⟨r, k₀⟩, hentry, hcalm⟩ := hrun
  exact ⟨r, k₀, hentry, always_haltSafe validShell_sampleImage hentry (fun _ _ _ => rfl) hcalm⟩

/-- The tick comes after `pcb_status_array[curr_pid] = 0`: terminal 1 launches its process with the
pid, and on the kernel stack, of the process of terminal 0 that is still in `halt`. -/
theorem not_haltSafe_after_free :
    ∃ r k₀ s command stack, entry sampleEnv zeroRam = some (r, k₀) ∧
      exec (preemptStep sampleEnv) (.boot k₀)
        ([.execute (commandLine "shell") (fun _ => 0#8), .switchTerm 1, .tick 0x1000#32,
          .callHalt] ++ List.replicate 4 .statement ++ [.tick 0x2000#32]) = some s ∧
      s.kernel.procs.currTerm = 1 ∧ s.kernel.pic.masterMask.getLsbD 0 = false ∧
      s.halting 0 = some (3, .shellEsp (some 0)) ∧
      ¬ HaltSafe sampleEnv s (.execute command stack) := by
  have hrun : (entry sampleEnv zeroRam).any fun x => (exec (preemptStep sampleEnv) (.boot x.2)
      ([.execute (commandLine "shell") (fun _ => 0#8), .switchTerm 1, .tick 0x1000#32,
        .callHalt] ++ List.replicate 4 .statement ++ [.tick 0x2000#32])).any fun s =>
      (execute sampleEnv (commandLine "shell") (fun _ => 0#8) s.kernel).any fun y => decide (
        s.kernel.procs.currTerm = 1 ∧ s.kernel.pic.masterMask.getLsbD 0 = false ∧
        s.halting 0 = some (3, .shellEsp (some 0)) ∧ s.halting 1 = none ∧
        y.1 = .userMode 0x8048000#32 ∧ y.2.procs.currPid = 3) := by
    decide +kernel
  simp only [Option.any_eq_true, decide_eq_true_eq] at hrun
  obtain ⟨⟨r, k₀⟩, hentry, s, hs, ⟨r', k'⟩, hx, hterm, hmask, hhalting, hidle, rfl, hpid⟩ := hrun
  refine ⟨r, k₀, s, commandLine "shell", fun _ => 0#8, hentry, hs, hterm, hmask, hhalting,
    fun h => ?_⟩
  -- the new process gets pid 3, on whose stack `halt` has not ended
  have hstep : preemptStep sampleEnv s (.execute (commandLine "shell") fun _ => 0#8) =
      some { s with kernel := k' } := by
    rw [preemptStep, hterm, if_pos hidle, hx]
    rfl
  exact h.fresh 3 _ hstep ⟨_, k', hx, hpid⟩ 0 3 _ hhalting rfl

end Ece391
