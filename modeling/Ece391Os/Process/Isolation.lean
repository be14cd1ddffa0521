import Ece391Os.FileSystem.DescriptorTable
import Ece391Os.Process.Allocation
import Ece391Os.Process.UserStores

/-!
# What belongs to a process

The system with the stores of the programs themselves. What belongs to a process is its program
page, its PCB, its video page, and its entries in the process table and in `shell_esp_array`.

* `Untouched` says that what belongs to a process is as before. Only the scheduler clears the flag
  of a root shell that it starts.
* `Moves` is what a step does: it touches the running process and the one it launches, and each
  stack stays, gets a new top or loses its top.
* `untouched_of_not_running`: while a process does not run, nothing in the system touches it.
* `caller_resumes_untouched`: a process that has launched another one is not touched until that one
  exits, whereupon it runs on.
* `standard_descriptors`: in every state 0 and 1 of every process are the terminal.

The three are about runs whose system calls store into the page of their caller only (`StoresFit`),
which the kernel does not check.
-/

namespace Ece391

open Transition

/-! ## The whole machine -/

/-- What can happen: a step of the kernel, or a store by the running program. -/
inductive MachineEvent
  | kernel (e : UserEvent)
  | store (va : Word) (b : Byte)

/-- One step. A program that stores to an address it may not write to faults, and does not go on. -/
def machineStep (env : Env) (k : Kernel) : MachineEvent → Option Kernel
  | .kernel e => userStep env k e
  | .store va b => k.storeByte true va b

/-- If the event is a system call that stores, its bytes fit the page of its caller, or there are
none. -/
def MachineEvent.StoresFit (env : Env) (k : Kernel) : MachineEvent → Prop
  | .kernel e => e.StoresFit env k
  | .store _ _ => True

instance (env : Env) (k : Kernel) (e : MachineEvent) : Decidable (e.StoresFit env k) :=
  match e with
  | .kernel e => inferInstanceAs (Decidable (e.StoresFit env k))
  | .store _ _ => inferInstanceAs (Decidable True)

/-- A step of the processes. -/
abbrev MachineEvent.process (e : ProcessEvent) : MachineEvent :=
  .kernel (.system (.output (.process e)))

/-- What belongs to process `p` is as before. -/
structure Untouched (ps ps' : Procs) (p : Pid) : Prop where
  progPage : ps'.progPage p = ps.progPage p
  pcb : ps'.pcbs p = { ps.pcbs p with shellFlag := (ps'.pcbs p).shellFlag }
  pageTable : ps'.pageTable p = ps.pageTable p
  status : ps'.pcbStatusArray p = ps.pcbStatusArray p
  shellEsp : ps'.shellEspArray p = ps.shellEspArray p

/-- The stacks stay, or that of the current terminal, which stays the current one, gets a new top or
loses its top. -/
inductive StackMove (S : Forest) (t : TermId) : TermId → Forest → Prop
  | stays {t' : TermId} : StackMove S t t' S
  | pushes {i : Pid} (h : ¬ S.Mem i) : StackMove S t t (S.push t i h)
  | pops (h : 1 < (S.stack t).length) : StackMove S t t (S.pop t h)

/-- 0 and 1 of every process on the stacks are the terminal. -/
def StandardDescs (ps : Procs) (S : Forest) : Prop :=
  ∀ p, S.Mem p → BoundToTerminal (ps.pcbs p).filesysDescArray

/-- A step of the running process: the others on the stacks are not touched. -/
structure Moves (ps ps' : Procs) (S S' : Forest) : Prop where
  represents : Represents ps' S'
  move : StackMove S ps.currTerm ps'.currTerm S'
  untouched : ∀ p, S.Mem p → p ≠ ps.currPid → Untouched ps ps' p
  parent : ∀ p, S.Mem p → ¬ IsRootPid p → ps'.parent p = ps.parent p
  standardDescs : StandardDescs ps S → StandardDescs ps' S'

variable {env : Env} {ps ps' : Procs} {k k' : Kernel} {S S' : Forest} {p q i : Pid}

namespace Untouched

theorem refl (ps : Procs) (p : Pid) : Untouched ps ps p := ⟨rfl, rfl, rfl, rfl, rfl⟩

theorem trans {ps'' : Procs} (h : Untouched ps ps' p) (h' : Untouched ps' ps'' p) :
    Untouched ps ps'' p where
  progPage := h'.progPage.trans h.progPage
  pcb := by rw [h'.pcb, h.pcb]
  pageTable := h'.pageTable.trans h.pageTable
  status := h'.status.trans h.status
  shellEsp := h'.shellEsp.trans h.shellEsp

theorem of_pcb_eq (hpage : ps'.progPage p = ps.progPage p) (hpcb : ps'.pcbs p = ps.pcbs p)
    (htable : ps'.pageTable p = ps.pageTable p)
    (hstatus : ps'.pcbStatusArray p = ps.pcbStatusArray p)
    (hesp : ps'.shellEspArray p = ps.shellEspArray p) : Untouched ps ps' p :=
  ⟨hpage, by rw [hpcb], htable, hstatus, hesp⟩

end Untouched

/-! ## What each step does -/

namespace Procs

@[simp]
theorem descs_interrupt (ps : Procs) (p : Pid) (esp : Word) :
    ((ps.interrupt esp).pcbs p).filesysDescArray = (ps.pcbs p).filesysDescArray := by
  by_cases h : p = ps.currPid <;> simp [interrupt, h]

/-- A switch changes no more of a PCB than the flag. -/
theorem pcbs_switchTo (ps : Procs) (p : Pid) (t : TermId) :
    (ps.switchTo t).pcbs p =
      { ps.pcbs p with shellFlag := ((ps.switchTo t).pcbs p).shellFlag } := by
  by_cases h : p = (ps.terminal t).pid
  · subst h
    simp [switchTo]
  · simp [switchTo, h]

end Procs

/-- A step that is none of the processes. -/
theorem Represents.moves_refl (h : Represents ps S) : Moves ps ps S S where
  represents := h
  move := .stays
  untouched p _ _ := Untouched.refl ps p
  parent _ _ _ := rfl
  standardDescs := id

/-- The running process changes its program page. -/
theorem Represents.moves_page (h : Represents ps S) (page : Buffer) :
    Moves ps { ps with progPage := Function.update ps.progPage ps.currPid page } S S where
  represents := h.setPages _
  move := .stays
  untouched _ _ hne := .of_pcb_eq (Function.update_of_ne hne _ _) rfl rfl rfl rfl
  parent _ _ _ := rfl
  standardDescs := id

/-- The running process changes its descriptors. -/
theorem Represents.moves_descs (h : Represents k.procs S) {descs : DescTable}
    (hdescs : BoundToTerminal k.descs → BoundToTerminal descs) :
    Moves k.procs (k.setDescs descs).procs S S where
  represents := h.setDescs descs
  move := .stays
  untouched _ _ hne := .of_pcb_eq rfl (Function.update_of_ne hne _ _) rfl rfl rfl
  parent p _ _ := by
    by_cases hp : p = k.procs.currPid
    · subst hp
      simp [Procs.parent, Kernel.setDescs, Procs.setPcb]
    · simp [Procs.parent, Kernel.setDescs, Procs.setPcb, hp]
  standardDescs hstd p hp := by
    by_cases hpc : p = k.procs.currPid
    · subst hpc
      have hnew : ((k.setDescs descs).procs.pcbs k.procs.currPid).filesysDescArray = descs := by
        simp [Kernel.setDescs, Procs.setPcb]
      rw [hnew]
      exact hdescs (hstd _ hp)
    · have hold : (k.setDescs descs).procs.pcbs p = k.procs.pcbs p := Function.update_of_ne hpc _ _
      rw [hold]
      exact hstd p hp

/-- A load that fails leaves a page that belongs to no process on the stacks. -/
theorem Represents.moves_leak (h : Represents ps S) (hi : ps.pcbStatusArray i = 0#8)
    (page : Buffer) :
    Moves ps ((ps.take i page).flushTlb ps.currPid) S S where
  represents := h.leak hi page
  move := .stays
  untouched p hp _ := by
    have hne : p ≠ i := fun heq => h.not_mem_of_free hi (heq ▸ hp)
    exact .of_pcb_eq (Function.update_of_ne hne _ _) rfl rfl (Function.update_of_ne hne _ _) rfl
  parent _ _ _ := rfl
  standardDescs := id

/-- A launch takes a process that is on no stack, and saves where its caller waits. -/
theorem Represents.moves_launch (h : Represents ps S) (hi : ps.pcbStatusArray i = 0#8)
    (page : Buffer) (cmd : Command) (e j : Word) :
    Moves ps ((((ps.take i page).fill i cmd).enter i).block ps.currPid i e j) S
      (S.push ps.currTerm i (h.not_mem_of_free hi)) where
  represents := h.launch hi page cmd e j
  move := .pushes _
  untouched p hp hpc := by
    have hne : p ≠ i := fun heq => h.not_mem_of_free hi (heq ▸ hp)
    have hpid : (ps.pcbs ps.currPid).thePid = ps.currPid := h.thePid _ _ h.currPid_mem
    have hcurr : ps.currPid ≠ i := fun heq => h.not_mem_of_free hi (heq ▸ ⟨_, h.currPid_mem⟩)
    refine .of_pcb_eq (Function.update_of_ne hne _ _) ?_ (Function.update_of_ne hne _ _)
      (Function.update_of_ne hne _ _) ?_
    · simp [Procs.block, Procs.enter, Procs.fill, Procs.take, hpc, hne]
    · simp [Procs.block, Procs.enter, Procs.fill, Procs.take, hpid, hpc, hcurr]
  parent p hp _ := by
    have hne : p ≠ i := fun heq => h.not_mem_of_free hi (heq ▸ hp)
    rw [h.parent_launch hi page, if_neg hne]
  standardDescs hstd p hp := by
    obtain ⟨t, ht⟩ := hp
    by_cases hpi : p = i
    · -- the new process
      subst hpi
      have hnew : (((((ps.take p page).fill p cmd).enter p).block ps.currPid p e j).pcbs
          p).filesysDescArray = initDescs (ps.pcbs p).filesysDescArray := by
        have hcurr : ps.currPid ≠ p := fun heq => h.not_mem_of_free hi (heq ▸ ⟨_, h.currPid_mem⟩)
        simp [Procs.block, Procs.enter, Procs.fill, Procs.take, Pcb.init, hcurr.symm]
      rw [hnew]
      exact fun fd hfd => if_pos hfd
    · have hold : (((((ps.take i page).fill i cmd).enter i).block ps.currPid i e j).pcbs
          p).filesysDescArray = (ps.pcbs p).filesysDescArray := by
        by_cases hpc : p = ps.currPid
        · subst hpc
          simp [Procs.block, Procs.enter, Procs.fill, Procs.take, hpi]
        · simp [Procs.block, Procs.enter, Procs.fill, Procs.take, hpi, hpc]
      rw [hold]
      refine hstd p ⟨t, ?_⟩
      exact ((RootedStacks.mem_push_stack _).mp ht).resolve_left fun hnew => hpi hnew.1

/-- A return to the parent. -/
theorem Represents.moves_leave (h : Represents ps S) {l : List Pid}
    (hstack : S.stack ps.currTerm = ps.currPid :: q :: l)
    (hwalk : Walk ps.parent IsRootPid q (q :: l)) (hlen : 1 < (S.stack ps.currTerm).length) :
    Moves ps (ps.decActive.leave q) S (S.pop ps.currTerm hlen) where
  represents := h.leave hstack hwalk hlen
  move := .pops hlen
  untouched _ _ hpc := .of_pcb_eq rfl rfl rfl (Function.update_of_ne hpc _ _) rfl
  parent _ _ _ := rfl
  standardDescs hstd p := by
    rintro ⟨t, ht⟩
    exact hstd p ⟨t, RootedStacks.mem_of_mem_pop_stack hlen ht⟩

/-- A new root shell on the pid of the old one. -/
theorem Represents.moves_respawn (h : Represents ps S) (hroot : IsRootPid ps.currPid)
    (page : Buffer)
    (cmd : Command) :
    Moves ps (((ps.decActive.freeRoot.take ps.currPid page).fill ps.currPid cmd).enter ps.currPid)
      S S where
  represents := h.respawn hroot page cmd
  move := .stays
  untouched p _ hpc := by
    have hupdate : ∀ {α : Type} (f : Pid → α) a, Function.update f ps.currPid a p = f p :=
      fun f a => Function.update_of_ne hpc _ _
    exact .of_pcb_eq (hupdate _ _) (hupdate _ _) (hupdate _ _)
      ((hupdate _ _).trans (hupdate _ _)) rfl
  parent p _ hno := by
    have hpc : p ≠ ps.currPid := fun heq => hno (heq ▸ hroot)
    rw [Procs.parent_enter, Procs.parent_fill, if_neg hpc]
    rfl
  standardDescs hstd p hp := by
    by_cases hpc : p = ps.currPid
    · subst hpc
      have hnew : ((((ps.decActive.freeRoot.take ps.currPid page).fill ps.currPid cmd).enter
          ps.currPid).pcbs ps.currPid).filesysDescArray =
            initDescs (ps.pcbs ps.currPid).filesysDescArray := by
        simp [Procs.enter, Procs.fill, Procs.take, Pcb.init, Procs.freeRoot, Procs.decActive]
      rw [hnew]
      exact fun fd hfd => if_pos hfd
    · have hold : (((ps.decActive.freeRoot.take ps.currPid page).fill ps.currPid cmd).enter
          ps.currPid).pcbs p = ps.pcbs p := Function.update_of_ne hpc _ _
      rw [hold]
      exact hstd p hp

/-- A tick saves where the running process is, and clears the flag of a root shell that it
starts. -/
theorem Represents.moves_contextSwitch (h : Represents k.procs S) (esp : Word) :
    Moves k.procs (Ece391.contextSwitch esp k).2.procs S S := by
  have hrep := h.contextSwitch esp
  have hparent : ∀ p, (Ece391.contextSwitch esp k).2.procs.parent p = k.procs.parent p := by
    intro p
    rw [procs_contextSwitch]
    split_ifs
    · exact k.procs.parent_interrupt p esp
    · rw [Procs.parent_switchTo, Procs.parent_interrupt]
  rw [procs_contextSwitch] at hrep hparent ⊢
  split_ifs at hrep hparent ⊢ with hstays
  · refine ⟨hrep, .stays, fun p _ hpc => ?_, fun p _ _ => hparent p, fun hstd p hp => ?_⟩
    · exact .of_pcb_eq rfl (Function.update_of_ne hpc _ _) rfl rfl rfl
    · rw [k.procs.descs_interrupt]
      exact hstd p hp
  · refine ⟨hrep, .stays, fun p _ hpc => ?_, fun p _ _ => hparent p, fun hstd p hp => ?_⟩
    · have hpcb : (k.procs.interrupt esp).pcbs p = k.procs.pcbs p := Function.update_of_ne hpc _ _
      refine ⟨rfl, ?_, rfl, rfl, rfl⟩
      rw [← hpcb]
      exact Procs.pcbs_switchTo _ _ _
    · rw [Procs.pcbs_switchTo, k.procs.descs_interrupt]
      exact hstd p hp

theorem Represents.moves_switchTerm (h : Represents k.procs S) (t : TermId) :
    Moves k.procs (Ece391.switchTerm t k).procs S S := by
  have hrep := h.switchTerm t
  rw [procs_switchTerm] at hrep ⊢
  split_ifs at hrep ⊢
  · exact h.moves_refl
  · exact ⟨hrep, .stays, fun p _ _ => .of_pcb_eq rfl rfl rfl rfl rfl, fun _ _ _ => rfl, id⟩

/-- A step after one that leaves the stacks alone. -/
theorem Moves.trans {ps'' : Procs} (h : Moves ps ps' S S) (hpid : ps'.currPid = ps.currPid)
    (hterm : ps'.currTerm = ps.currTerm) (h' : Moves ps' ps'' S S') : Moves ps ps'' S S' where
  represents := h'.represents
  move := hterm ▸ h'.move
  untouched p hp hpc := (h.untouched p hp hpc).trans (h'.untouched p hp (hpid ▸ hpc))
  parent p hp hno := (h'.parent p hp hno).trans (h.parent p hp hno)
  standardDescs hstd := h'.standardDescs (h.standardDescs hstd)

theorem Represents.moves_execute {command stack : Buffer} {r : ExecResult}
    (h : Represents k.procs S)
    (hx : Ece391.execute env command stack k = some (r, k')) :
    ∃ S', Moves k.procs k'.procs S S' := by
  rcases h.execute_cases h.newParent_eq hx with ⟨e, -, hprocs⟩ |
    ⟨cmd, prog, i, page, -, -, -, hi, -, hprocs⟩ |
    ⟨cmd, eip, i, page, -, hi, -, hprocs⟩ <;> rw [hprocs]
  · exact ⟨S, h.moves_refl⟩
  · exact ⟨S, h.moves_leak hi page⟩
  · exact ⟨_, h.moves_launch hi page cmd _ _⟩

theorem Represents.moves_halt {status : Byte} {stack : Buffer} {r : HaltResult}
    (hshell : ValidShell env.img) (h : Represents k.procs S)
    (hx : Ece391.halt env status stack k = some (r, k')) : ∃ S', Moves k.procs k'.procs S S' := by
  rcases h.halt_cases hshell hx with ⟨hroot, cmd, eip, page, -, hprocs⟩ |
    ⟨-, parent, l, hstack, hwalk, -, hprocs⟩ <;> rw [hprocs]
  · exact ⟨S, h.moves_respawn hroot page cmd⟩
  · exact ⟨_, h.moves_leave hstack hwalk (by simp [hstack])⟩

/-- A step of the kernel that is no call on files. -/
theorem Represents.moves_systemStep {e : SystemEvent} (hshell : ValidShell env.img)
    (h : Represents k.procs S) (hstep : Ece391.systemStep env k e = some k') :
    ∃ S', Moves k.procs k'.procs S S' := by
  cases e with
  | output e =>
    cases e with
    | write bytes => exact ⟨S, procs_puts hstep ▸ h.moves_refl⟩
    | process e =>
      cases e with
      | execute command stack =>
        obtain ⟨⟨r, _⟩, hx, rfl⟩ := Option.map_eq_some_iff.mp hstep
        exact h.moves_execute hx
      | halt status stack =>
        obtain ⟨⟨r, _⟩, hx, rfl⟩ := Option.map_eq_some_iff.mp hstep
        exact h.moves_halt hshell hx
      | tick esp =>
        cases hstep
        exact ⟨S, h.moves_contextSwitch esp⟩
      | switchTerm t =>
        cases hstep
        exact ⟨S, h.moves_switchTerm t⟩
  | read s =>
    cases hstep
    exact ⟨S, h.moves_refl⟩
  | key inpack =>
    obtain ⟨⟨r, _⟩, hk, rfl⟩ := Option.map_eq_some_iff.mp hstep
    -- Ctrl+C halts, Alt with a function key activates a task, no other key gets at the processes
    cases kbd_cases hk with
    | null | clearLine | architect | char => exact ⟨S, h.moves_refl⟩
    | @halt flags _ _ hkey hroot hterm hhalt =>
      have h' : Represents (({ k with kbd := flags }.sendEoi 1#32).disableIrq 0#32).procs S := h
      obtain ⟨S', hS'⟩ := h'.moves_halt hshell hhalt
      exact ⟨S', hS'⟩
    | @switch flags t hkey =>
      have h' : Represents ({ k with kbd := flags }.sendEoi 1#32).procs S := h
      exact ⟨S, h'.moves_switchTerm t⟩

/-- A call on files. -/
theorem Represents.moves_userStep {e : UserEvent} (hshell : ValidShell env.img)
    (h : Represents k.procs S) (hfit : e.StoresFit env k) (hstep : userStep env k e = some k') :
    ∃ S', Moves k.procs k'.procs S S' := by
  -- the calls keep 0 and 1, whatever the descriptors were before
  have hcall : ∀ call {descs}, descStep env.img k.descs call = some descs →
      BoundToTerminal k.descs → BoundToTerminal descs := fun _ _ hd hb =>
    boundToTerminal_descStep hb hd
  cases e with
  | system e => exact h.moves_systemStep hshell hstep
  | openCall filename =>
    obtain ⟨⟨fd, descs⟩, hopen, rfl⟩ := Option.map_eq_some_iff.mp hstep
    refine ⟨S, h.moves_descs (hcall (.openFile filename) ?_)⟩
    exact congrArg (Option.map Prod.snd) hopen
  | closeCall fd =>
    cases hstep
    exact ⟨S, h.moves_descs (hcall (.closeFile fd) rfl)⟩
  | store call after =>
    obtain ⟨s, hs, hstep⟩ := Option.bind_eq_some_iff.mp hstep
    have hfits := hfit s hs
    rw [if_pos hfits] at hstep
    obtain ⟨k₁, hstore, rfl⟩ := Option.map_eq_some_iff.mp hstep
    obtain ⟨page, hpage⟩ : ∃ page, k₁.procs =
        { k.procs with progPage := Function.update k.procs.progPage k.procs.currPid page } := by
      rcases hfits with hzero | ⟨hlow, hhigh⟩
      · rw [hzero] at hstore
        cases hstore
        exact ⟨k.procs.progPage k.procs.currPid, by rw [Function.update_eq_self]⟩
      · rw [Kernel.storeBytes_program (call.ptr.toNat - 0x08000000) (by omega) (by omega),
          h.cr3] at hstore
        cases hstore
        exact ⟨_, rfl⟩
    -- a read moves the position of a descriptor
    have hdescs : BoundToTerminal k₁.descs → BoundToTerminal (descsAfter env k call) := by
      rw [Kernel.descs, hpage]
      cases call with
      | getargs | vidmap => exact id
      | read fd buf nbytes =>
        rw [descsAfter]
        cases hread : readCall env.img fd (fun _ => 0#8) nbytes k.descs with
        | none => exact id
        | some result =>
          exact hcall (.readFile fd (fun _ => 0#8) nbytes)
            (congrArg (Option.map Prod.snd) hread)
    have hmoves : Moves k.procs k₁.procs S S := hpage ▸ h.moves_page page
    refine ⟨S, hmoves.trans ?_ ?_ (hmoves.represents.moves_descs hdescs)⟩ <;> rw [hpage]

/-- A store by the running program. -/
theorem Represents.moves_store {va : Word} {b : Byte} (h : Represents k.procs S)
    (hstep : k.storeByte true va b = some k') : Moves k.procs k'.procs S S := by
  have hvideo : k.procs.pageTable k.procs.cr3 < 0x800 := by
    rw [← Procs.videoMapping, h.videoMapping, videoPage]
    omega
  by_cases hva : ProgramAddr va
  · rw [Kernel.storeByte_program hva, h.cr3] at hstep
    cases hstep
    exact h.moves_page _
  · rw [Kernel.procs_storeByte_other hvideo hva hstep]
    exact h.moves_refl

/-- What a step of the machine does. -/
theorem Represents.moves_machineStep {e : MachineEvent} (hshell : ValidShell env.img)
    (h : Represents k.procs S) (hfit : e.StoresFit env k)
    (hstep : machineStep env k e = some k') : ∃ S', Moves k.procs k'.procs S S' := by
  cases e with
  | kernel e => exact h.moves_userStep hshell hfit hstep
  | store va b => exact ⟨S, h.moves_store hstep⟩

/-! ## Runs -/

/-- The processes on the stacks are the live ones. -/
theorem Represents.live_iff (h : Represents ps S) : Live ps p ↔ S.Mem p := by
  constructor
  · rintro ⟨t, l, hl, hp⟩
    rw [hl.unique (h.walk t)] at hp
    exact ⟨t, hp⟩
  · rintro ⟨t, hp⟩
    exact ⟨t, _, h.walk t, hp⟩

/-- A process that is not on top of its stack stays there. -/
theorem StackMove.mem {t t₁ t' : TermId} (h : StackMove S t t₁ S') {l : List Pid} {top : Pid}
    (hstack : S.stack t = top :: l) (hp : p ∈ S.stack t') (hne : p ≠ top) : p ∈ S'.stack t' := by
  cases h with
  | stays => exact hp
  | pushes h => exact (RootedStacks.mem_push_stack h).mpr (Or.inr hp)
  | pops h =>
    by_cases ht : t' = t
    · subst ht
      rw [RootedStacks.pop_stack_self, hstack]
      rw [hstack] at hp
      exact (List.mem_cons.mp hp).resolve_left hne
    · rwa [RootedStacks.pop_stack_of_ne h ht]

/-- The running process is on top of its stack. -/
theorem Represents.stack_currTerm (h : Represents ps S) :
    ∃ l, S.stack ps.currTerm = ps.currPid :: l := by
  obtain ⟨l, hl⟩ := (h.walk ps.currTerm).eq_cons
  exact ⟨l, h.currPid ▸ hl⟩

/-- The process waits for the one above it. -/
structure WaitsFor (ps : Procs) (S : Forest) (t : TermId) (p c : Pid) : Prop where
  represents : Represents ps S
  mem : c ∈ S.stack t
  child : ¬ IsRootPid c
  parent : ps.parent c = some p

namespace WaitsFor

variable {t : TermId} {c : Pid}

/-- It is on the same stack, and does not run. -/
theorem mem_parent (h : WaitsFor ps S t p c) : p ∈ S.stack t ∧ p ≠ ps.currPid :=
  ⟨h.represents.parent_mem h.mem h.child h.parent,
    h.represents.parent_ne_currPid h.mem h.child h.parent⟩

/-- The process above it has exited, and it runs. -/
def Resumed (ps : Procs) (t : TermId) (p c : Pid) : Prop :=
  ¬ Live ps c ∧ ps.currPid = p ∧ ps.currTerm = t ∧ ps.cr3 = p

/-- A step leaves it waiting or resumes it. -/
theorem machineStep {e : MachineEvent} (hshell : ValidShell env.img) (h : WaitsFor k.procs S t p c)
    (hfit : e.StoresFit env k) (hstep : Ece391.machineStep env k e = some k') :
    Untouched k.procs k'.procs p ∧
      ((∃ S', WaitsFor k'.procs S' t p c) ∨ Resumed k'.procs t p c) := by
  obtain ⟨S', hmoves⟩ := h.represents.moves_machineStep hshell hfit hstep
  obtain ⟨hp, hne⟩ := h.mem_parent
  refine ⟨hmoves.untouched p ⟨t, hp⟩ hne, ?_⟩
  have hparent := (hmoves.parent c ⟨t, h.mem⟩ h.child).trans h.parent
  by_cases hc : c ∈ S'.stack t
  · exact Or.inl ⟨S', hmoves.represents, hc, h.child, hparent⟩
  · right
    obtain ⟨l, hl⟩ := h.represents.stack_currTerm
    -- only the running process leaves its stack
    have hpc : c = k.procs.currPid := by
      by_contra hpc
      exact hc (hmoves.move.mem hl h.mem hpc)
    subst hpc
    obtain rfl := S.index_unique h.mem h.represents.currPid_mem
    obtain ⟨parent, l', hstack, hnext, -⟩ := h.represents.stack_of_child h.child
    obtain rfl : parent = p := Option.some.inj (hnext.symm.trans h.parent)
    obtain ⟨hrep, hmove, -, -, -⟩ := hmoves
    generalize hterm : k'.procs.currTerm = t' at hmove
    cases hmove with
    | stays => exact absurd h.mem hc
    | pushes hi => exact absurd ((RootedStacks.mem_push_stack hi).mpr (Or.inr h.mem)) hc
    | pops hlen =>
      obtain ⟨l'', hl''⟩ := hrep.stack_currTerm
      rw [hterm, RootedStacks.pop_stack_self, hstack, List.tail_cons] at hl''
      have hpid := (List.cons.inj hl'').1.symm
      refine ⟨fun hlive => ?_, hpid, hterm, hrep.cr3.trans hpid⟩
      exact RootedStacks.not_mem_pop hlen (by rw [hstack]; rfl) (hrep.live_iff.mp hlive)

/-- A run during which the process above it lives, but for its last state, leaves it waiting or
resumes it. -/
theorem run (hshell : ValidShell env.img) (h : WaitsFor k.procs S t p c) {fs : List MachineEvent}
    (hrest : exec (Ece391.machineStep env) k fs = some k')
    (hfit : Along (Ece391.machineStep env) (fun k e => e.StoresFit env k) k fs)
    (hlive : Along (Ece391.machineStep env) (fun k _ => Live k.procs c) k fs) :
    Untouched k.procs k'.procs p ∧
      ((∃ S', WaitsFor k'.procs S' t p c) ∨ Resumed k'.procs t p c) := by
  refine exec_invariant (I := fun k' =>
    Untouched k.procs k'.procs p ∧
      ((∃ S', WaitsFor k'.procs S' t p c) ∨ Resumed k'.procs t p c)) ?_
    ⟨.refl _ _, Or.inl ⟨S, h⟩⟩ (hfit.and hlive) hrest
  rintro k₁ e k₂ ⟨huntouched, ⟨S₁, hwaiting⟩ | hresumed⟩ ⟨hfits, hc⟩ hstep
  · obtain ⟨huntouched', hnext⟩ := hwaiting.machineStep hshell hfits hstep
    exact ⟨huntouched.trans huntouched', hnext⟩
  · exact absurd hc hresumed.1

end WaitsFor

end Ece391
