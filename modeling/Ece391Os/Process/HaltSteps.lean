import Ece391Os.Process.Forest

/-!
# `halt`, statement by statement

A process that was launched by another one calls `halt` through a trap gate, so the timer can
interrupt it between any two statements.

* `HaltPc` is the statement to be executed next, with the local variables it uses.
* `haltSteps_eq_halt`: without an interrupt the statements together are `halt`.
* `Returning`: from the statement that frees the pid on, what is left to be done leads to the stacks
  without the process.
-/

namespace Ece391

open Transition

/-- The statement of `halt` after `active_proc_num--` that is executed next. `parent` is
`parent_pcb_ptr`, the pid whose PCB it points to. -/
inductive HaltPc
  /-- `if(curr_pid < 3)` -/
  | checkRoot
  /-- `curr_pcb_ptr = (pcb_t*)pcb_ptr_array[curr_pid]` -/
  | currPcbPtr
  /-- `parent_pcb_ptr = curr_pcb_ptr->parent_pcb` -/
  | parentPcbPtr (curr : Pid)
  /-- `pcb_status_array[curr_pid] = 0` -/
  | pcbStatus (parent : Option Pid)
  /-- `shell_esp = parent_pcb_ptr->the_esp` -/
  | shellEsp (parent : Option Pid)
  /-- `shell_ss = parent_pcb_ptr->the_ss` -/
  | shellSs (parent : Pid) (esp : Word)
  /-- `tss.ss0 = shell_ss` -/
  | tssSs0 (parent : Pid) (esp ss : Word)
  /-- `tss.esp0 = shell_esp` -/
  | tssEsp0 (parent : Pid) (esp : Word)
  /-- `curr_pid = parent_pcb_ptr->the_pid` -/
  | currPid (parent : Pid)
  /-- `terms[curr_term].pid = curr_pid` -/
  | termsPid (parent : Pid)
  /-- `terminal[curr_term].pid = curr_pid` -/
  | terminalPid (parent : Pid)
  /-- `flush_tlb(parent_pcb_ptr->the_pid)` -/
  | flushTlb (parent : Pid)
  /-- `enable_irq(0)` -/
  | enableIrq (parent : Pid)
  /-- `return exit_to_shell(status, curr_pid)`, which leaves the kernel stack of the process. -/
  | exitToShell (parent : Pid)
  deriving DecidableEq

namespace HaltPc

/-- The pid has been freed. -/
def freed : HaltPc → Bool
  | checkRoot | currPcbPtr | parentPcbPtr _ | pcbStatus _ => false
  | _ => true

/-- Execute a statement: the one that follows, `none` once the stack is left. A null parent that is
followed is a page fault, and the branch of a root shell is not taken here. -/
def run (k : Kernel) : HaltPc → Option (Option HaltPc × Kernel)
  -- `curr_pid < 3` takes the branch of a root shell
  | checkRoot => if IsRootPid k.procs.currPid then none else some (some currPcbPtr, k)
  | currPcbPtr => some (some (parentPcbPtr k.procs.currPid), k)
  | parentPcbPtr curr => some (some (pcbStatus (k.procs.pcbs curr).parentPcb), k)
  | pcbStatus parent =>
    some (some (shellEsp parent), { k with procs := { k.procs with
      pcbStatusArray := Function.update k.procs.pcbStatusArray k.procs.currPid 0#8 } })
  | shellEsp parent =>
    parent.map fun parent => (some (shellSs parent (k.procs.pcbs parent).theEsp), k)
  | shellSs parent esp => some (some (tssSs0 parent esp (k.procs.pcbs parent).theSs), k)
  | tssSs0 parent esp ss =>
    some (some (tssEsp0 parent esp), { k with procs := { k.procs with
      tss := { k.procs.tss with ss0 := ss.setWidth 16 } } })
  | tssEsp0 parent esp =>
    some (some (currPid parent), { k with procs := { k.procs with
      tss := { k.procs.tss with esp0 := esp } } })
  | currPid parent =>
    some (some (termsPid parent), { k with procs := { k.procs with
      currPid := (k.procs.pcbs parent).thePid } })
  | termsPid parent =>
    some (some (terminalPid parent), { k with
      con := k.con.setTerm k.procs.currTerm fun term => { term with pid := k.procs.currPid } })
  | terminalPid parent =>
    some (some (flushTlb parent), { k with
      procs := k.procs.setTaskPid k.procs.currTerm k.procs.currPid })
  | flushTlb parent =>
    some (some (enableIrq parent), { k with
      procs := k.procs.flushTlb (k.procs.pcbs parent).thePid })
  | enableIrq parent => some (some (exitToShell parent), k.enableIrq 0#32)
  | exitToShell _ => some (none, k)

end HaltPc

namespace HaltPc

/-- What a statement leaves alone: the PCBs, the counter, and the tasks of the other terminals. -/
structure Keeps (pc : HaltPc) (k k' : Kernel) : Prop where
  pcbs : k'.procs.pcbs = k.procs.pcbs
  currTerm : k'.procs.currTerm = k.procs.currTerm
  activeProcNum : k'.procs.activeProcNum = k.procs.activeProcNum
  terminal : ∀ t, t ≠ k.procs.currTerm → k'.procs.terminal t = k.procs.terminal t
  /-- The current pid changes in one statement. -/
  currPid : k'.procs.currPid = k.procs.currPid ∨
    ∃ q, pc = .currPid q ∧ k'.procs.currPid = (k.procs.pcbs q).thePid

theorem keeps {pc : HaltPc} {x : Option HaltPc} {k k' : Kernel} (h : pc.run k = some (x, k')) :
    pc.Keeps k k' := by
  cases pc with
  | checkRoot =>
    rw [run] at h
    split_ifs at h
    cases h
    exact ⟨rfl, rfl, rfl, fun _ _ => rfl, Or.inl rfl⟩
  | shellEsp parent =>
    obtain ⟨_, -, h⟩ := Option.map_eq_some_iff.mp h
    cases h
    exact ⟨rfl, rfl, rfl, fun _ _ => rfl, Or.inl rfl⟩
  -- the only statement that assigns `curr_pid`
  | currPid q =>
    cases h
    exact ⟨rfl, rfl, rfl, fun _ _ => rfl, Or.inr ⟨q, rfl, rfl⟩⟩
  | terminalPid q =>
    cases h
    exact ⟨rfl, rfl, rfl, fun t ht => Function.update_of_ne ht _ _, Or.inl rfl⟩
  | _ =>
    cases h
    exact ⟨rfl, rfl, rfl, fun _ _ => rfl, Or.inl rfl⟩

end HaltPc

/-- One statement of a process that only halts. -/
def haltStep (s : Option HaltPc × Kernel) (_ : Unit) : Option (Option HaltPc × Kernel) :=
  s.1.bind fun pc => pc.run s.2

/-- Without an interrupt, the fourteen statements after `active_proc_num--` are `halt`. -/
theorem haltSteps_eq_halt (env : Env) (status : Byte) (stack : Buffer) {k : Kernel}
    (hroot : ¬ IsRootPid k.procs.currPid) :
    exec haltStep (some .checkRoot, { k with procs := k.procs.decActive }) (List.replicate 14 ()) =
      (halt env status stack k).map fun x => (none, x.2) := by
  have hcheck : haltStep (some .checkRoot, { k with procs := k.procs.decActive }) () =
      some (some .currPcbPtr, { k with procs := k.procs.decActive }) := if_neg hroot
  rw [halt_child hroot, haltChild]
  -- up to the statement that frees the pid
  refine (exec_cons_of_eq hcheck).trans ?_
  refine (exec_cons_of_eq rfl).trans ?_
  refine (exec_cons_of_eq rfl).trans ?_
  refine (exec_cons_of_eq rfl).trans ?_
  show exec haltStep (some (.shellEsp (k.procs.pcbs k.procs.currPid).parentPcb), _) _ =
    Option.map _ (Option.bind (k.procs.pcbs k.procs.currPid).parentPcb _)
  cases (k.procs.pcbs k.procs.currPid).parentPcb with
  | none => rfl
  | some parent =>
    -- the others follow the parent
    refine (exec_cons_of_eq rfl).trans ?_
    rfl

/-! ## Between the freed pid and the parent -/

/-- The table with the parent `q` of the halting process in its place. -/
def Procs.returnTo (ps : Procs) (q : Pid) : Procs :=
  { ps.setTaskPid ps.currTerm q with currPid := q, cr3 := q }

theorem Procs.returnTo_eq_self {ps : Procs} {q : Pid} (hpid : ps.currPid = q)
    (hterminal : (ps.terminal ps.currTerm).pid = q) (hcr3 : ps.cr3 = q) : ps.returnTo q = ps := by
  have htask : ps.setTaskPid ps.currTerm q = ps := by
    rw [Procs.setTaskPid, ← hterminal, Function.update_eq_self]
  rw [Procs.returnTo, htask]
  cases ps
  simp only at hpid hcr3
  rw [hpid, hcr3]

namespace HaltPc

/-- The parent, once the pid has been freed. -/
def parent? : HaltPc → Option Pid
  | checkRoot | currPcbPtr | parentPcbPtr _ | pcbStatus _ => none
  | shellEsp parent => parent
  | shellSs parent _ | tssSs0 parent _ _ | tssEsp0 parent _ | currPid parent | termsPid parent
  | terminalPid parent | flushTlb parent | enableIrq parent | exitToShell parent => some parent

theorem freed_of_parent {pc : HaltPc} {q : Pid} (h : pc.parent? = some q) : pc.freed = true := by
  cases pc with
  | checkRoot | currPcbPtr | parentPcbPtr | pcbStatus => cases h
  | _ => rfl

/-- The assignments that put the parent in place, as far as they have been executed. -/
def Done (ps : Procs) : HaltPc → Prop
  | termsPid q | terminalPid q => ps.currPid = q
  | flushTlb q => ps.currPid = q ∧ (ps.terminal ps.currTerm).pid = q
  | enableIrq q | exitToShell q =>
    ps.currPid = q ∧ (ps.terminal ps.currTerm).pid = q ∧ ps.cr3 = q
  | _ => True

end HaltPc

/-- The process of the current terminal has freed its pid and is at the statement `pc`. With its
parent `q` in its place, the table lays out the stacks `S`. -/
structure Returning (ps : Procs) (S : Forest) (pc : HaltPc) (q : Pid) : Prop where
  parent : pc.parent? = some q
  layout : Layout (ps.returnTo q) S
  done : pc.Done ps

namespace Returning

variable {ps : Procs} {S : Forest} {pc pc' : HaltPc} {q : Pid} {k k' : Kernel}

theorem mem (h : Returning ps S pc q) : q ∈ S.stack ps.currTerm := h.layout.currPid_mem

theorem thePid (h : Returning ps S pc q) : (ps.pcbs q).thePid = q := h.layout.thePid _ q h.mem

/-- The process of another terminal is not the parent. -/
theorem pid_ne (h : Returning ps S pc q) {t : TermId} (ht : t ≠ ps.currTerm) :
    (ps.terminal t).pid ≠ q := by
  have hpid := h.layout.pid_mem t
  simp only [Procs.returnTo, Procs.setTaskPid, Function.update_of_ne ht] at hpid
  -- the parent is on the stack of the current terminal only
  rintro rfl
  exact ht (S.index_unique hpid h.mem)

/-- A change of the table that the layout with the parent in place does not depend on. -/
theorem congr {ps' : Procs} (h : Returning ps S pc q) (hpc : pc'.parent? = some q)
    (hdone : pc'.Done ps') (hparent : ∀ p, ps'.parent p = ps.parent p)
    (hterminal : ∀ t, t ≠ ps.currTerm → (ps'.terminal t).pid = (ps.terminal t).pid)
    (hbusy : ps'.pcbStatusArray = ps.pcbStatusArray)
    (hthePid : ∀ p, (ps'.pcbs p).thePid = (ps.pcbs p).thePid)
    (hmapped : ps'.pageTable = ps.pageTable) (hcurrTerm : ps'.currTerm = ps.currTerm)
    (hroot : ps'.activeRootShell = ps.activeRootShell)
    (hterm : ∀ t, (ps'.terminal t).term = (ps.terminal t).term) : Returning ps' S pc' q := by
  refine ⟨hpc, ?_, hdone⟩
  refine h.layout.congr (fun _ p _ => hparent p) (fun t => ?_) ?_ ?_ ?_ ?_ rfl ?_ (fun t => ?_)
  · by_cases ht : t = ps.currTerm
    · simp [Procs.returnTo, Procs.setTaskPid, hcurrTerm, ht]
    · simp [Procs.returnTo, Procs.setTaskPid, hcurrTerm, ht, hterminal]
  · exact fun t p hp => hbusy ▸ h.layout.busy t p hp
  · exact fun t p hp => (hthePid p).trans (h.layout.thePid t p hp)
  · exact fun t p hp => hmapped ▸ h.layout.mapped t p hp
  · simp [Procs.returnTo, Procs.setTaskPid]
  · exact hroot.trans h.layout.activeRootShell
  · have hterm' := h.layout.term t
    by_cases ht : t = ps.currTerm
    · subst ht
      simpa [Procs.returnTo, Procs.setTaskPid, hcurrTerm, hterm] using hterm'
    · simpa [Procs.returnTo, Procs.setTaskPid, hcurrTerm, ht, hterm] using hterm'

/-- Freeing the pid pops the process, and leaves its parent to be put in its place. -/
theorem start (h : Layout ps S) (hroot : ¬ IsRootPid ps.currPid) :
    ∃ q hlen, ps.parent ps.currPid = some q ∧
      Returning { ps with pcbStatusArray := Function.update ps.pcbStatusArray ps.currPid 0#8 }
        (S.pop ps.currTerm hlen) (.shellEsp (some q)) q := by
  obtain ⟨q, l, hstack, hq, hwalk⟩ := h.stack_of_child hroot
  have hlen : 1 < (S.stack ps.currTerm).length := by simp [hstack]
  have hpid : (ps.pcbs q).thePid = q := h.thePid ps.currTerm q (by simp [hstack])
  -- the table of `leave` is the one with the parent in place
  have hleave := h.leave hstack hwalk hlen
  refine ⟨q, hlen, hq, rfl, ?_, trivial⟩
  refine hleave.congr (fun _ _ _ => rfl) (fun t => ?_) hleave.busy hleave.thePid hleave.mapped ?_
    rfl
    hleave.activeRootShell (fun t => ?_)
  · simp [Procs.returnTo, Procs.setTaskPid, Procs.leave, Procs.decActive, hpid]
  · simp [Procs.returnTo, Procs.setTaskPid]
  · by_cases ht : t = ps.currTerm <;> simp [Procs.returnTo, Procs.setTaskPid, ht, h.term]

/-- The next statement, up to the last one. -/
theorem run (h : Returning k.procs S pc q) (hrun : pc.run k = some (some pc', k')) :
    Returning k'.procs S pc' q := by
  have hparent := h.parent
  have hdone := h.done
  cases pc with
  | checkRoot | currPcbPtr | parentPcbPtr | pcbStatus => cases hparent
  | shellEsp parent =>
    obtain rfl : parent = some q := hparent
    cases hrun
    exact h.congr rfl trivial (fun _ => rfl) (fun _ _ => rfl) rfl (fun _ => rfl) rfl rfl rfl
      fun _ => rfl
  | shellSs parent esp | tssSs0 parent esp ss | tssEsp0 parent esp =>
    cases hparent
    cases hrun
    exact h.congr rfl trivial (fun _ => rfl) (fun _ _ => rfl) rfl (fun _ => rfl) rfl rfl rfl
      fun _ => rfl
  | currPid parent =>
    cases hparent
    cases hrun
    -- the PCB of the parent holds its own pid
    exact h.congr rfl h.thePid (fun _ => rfl) (fun _ _ => rfl) rfl (fun _ => rfl) rfl rfl rfl
      fun _ => rfl
  | termsPid parent =>
    cases hparent
    cases hrun
    exact h.congr rfl hdone (fun _ => rfl) (fun _ _ => rfl) rfl (fun _ => rfl) rfl rfl rfl
      fun _ => rfl
  | terminalPid parent =>
    cases hparent
    cases hrun
    -- the task of the current terminal gets the pid that is current already
    refine h.congr rfl ⟨hdone, ?_⟩ (fun _ => rfl) (fun t ht => ?_) rfl (fun _ => rfl) rfl rfl rfl
      fun t => ?_
    · simp only [Procs.setTaskPid, Function.update_self]
      exact hdone
    · simp [Procs.setTaskPid, ht]
    · by_cases ht : t = k.procs.currTerm <;> simp [Procs.setTaskPid, ht]
  | flushTlb parent =>
    cases hparent
    cases hrun
    exact h.congr rfl ⟨hdone.1, hdone.2, h.thePid⟩ (fun _ => rfl) (fun _ _ => rfl) rfl
      (fun _ => rfl) rfl rfl rfl fun _ => rfl
  | enableIrq parent =>
    cases hparent
    cases hrun
    exact h.congr rfl hdone (fun _ => rfl) (fun _ _ => rfl) rfl (fun _ => rfl) rfl rfl rfl
      fun _ => rfl
  | exitToShell parent => cases hrun

/-- After the last statement the parent is in place. -/
theorem exit (h : Returning k.procs S pc q) (hrun : pc.run k = some (none, k')) :
    Layout k'.procs S := by
  have hparent := h.parent
  have hdone := h.done
  cases pc with
  | exitToShell parent =>
    cases hparent
    cases hrun
    -- all three assignments have been made
    obtain ⟨hpid, hterminal, hcr3⟩ := hdone
    have hlayout := h.layout
    rwa [Procs.returnTo_eq_self hpid hterminal hcr3] at hlayout
  | checkRoot =>
    rw [HaltPc.run] at hrun
    split_ifs at hrun
    cases hrun
  | shellEsp parent =>
    obtain ⟨_, -, h⟩ := Option.map_eq_some_iff.mp hrun
    cases h
  | _ => cases hrun

/-- A tick that does not switch. -/
theorem interrupt (h : Returning ps S pc q) (esp : Word) :
    Returning (ps.interrupt esp) S pc q := by
  refine h.congr h.parent ?_ (fun p => ps.parent_interrupt p esp) (fun _ _ => rfl) rfl
    (fun p => ps.thePid_interrupt p esp) rfl rfl rfl fun _ => rfl
  have hdone := h.done
  cases pc <;> exact hdone

/-- Activating a task. -/
theorem activate (h : Returning ps S pc q) (t : TermId) :
    Returning { ps with
      terminal := Function.update ps.terminal t { ps.terminal t with active := true } } S pc q := by
  refine h.congr h.parent ?_ (fun _ => rfl) (fun t' _ => ps.pid_activate t t') rfl (fun _ => rfl)
    rfl rfl rfl (ps.term_activate t)
  have hdone := h.done
  cases pc with
  | flushTlb => exact ⟨hdone.1, (ps.pid_activate t _).trans hdone.2⟩
  | enableIrq | exitToShell =>
    exact ⟨hdone.1, (ps.pid_activate t _).trans hdone.2.1, hdone.2.2⟩
  | termsPid | terminalPid => exact hdone
  | _ => trivial

end Returning

end Ece391
