import Ece391Os.Lib.RootedStacks
import Ece391Os.Process.Program
import Ece391Os.Process.Schedule

/-!
# The process table as three stacks

What the scheduler's globals stand for: every terminal has a stack of processes whose bottom is its
root shell. The top one is the process of the terminal, and each of the others waits inside
`execute` for the one above it.

* `Layout ps S`: the process table `ps` lays out the stacks `S`, the parent pointers leading down
  each stack, and the current process and the loaded page directory agree with them. `Represents` is
  the layout with the counter of processes right.
* `Layout.launch`, `Layout.leave`, `Layout.respawn`, `Layout.switchTo`: what the code does to the
  table is a push, a pop, or nothing at the level of the stacks.
* `Layout.execute_cases` and `Layout.halt_cases` are the calls in such a state, and
  `Represents.processStep` is the invariant of the transition system.

A process that is not on a stack may still be marked busy: that is what `execute` leaves behind when
loading fails. `Exact` is the invariant without such processes.
-/

namespace Ece391

/-- Three stacks of processes, one for each terminal, over the root shells. -/
abbrev Forest := RootedStacks TermId Pid rootPid

/-- `parent_pcb`, as the relation it is followed by. -/
def Procs.parent (ps : Procs) (p : Pid) : Option Pid := (ps.pcbs p).parentPcb

/-- The process table lays out the stacks `S`. -/
structure Layout (ps : Procs) (S : Forest) : Prop where
  /-- Parent pointers lead from the process of a terminal down its stack to the root shell. -/
  walk : ∀ t, Walk ps.parent IsRootPid (ps.terminal t).pid (S.stack t)
  /-- A process on a stack is busy. -/
  busy : ∀ t, ∀ p ∈ S.stack t, ps.pcbStatusArray p ≠ 0#8
  /-- A process on a stack has its own pid in its PCB. -/
  thePid : ∀ t, ∀ p ∈ S.stack t, (ps.pcbs p).thePid = p
  /-- A process on a stack has the video page of its terminal mapped. -/
  mapped : ∀ t, ∀ p ∈ S.stack t, ps.pageTable p = videoPage t
  currPid : ps.currPid = (ps.terminal ps.currTerm).pid
  cr3 : ps.cr3 = ps.currPid
  activeRootShell : ps.activeRootShell = 3#8
  term : ∀ t, (ps.terminal t).term = t

/-- The process table lays out the stacks `S` and counts their processes. -/
structure Represents (ps : Procs) (S : Forest) : Prop extends Layout ps S where
  activeProcNum : ps.activeProcNum = BitVec.ofNat 8 S.size

namespace Forest

/-- There are at least the three root shells. -/
theorem three_le_size (S : Forest) : 3 ≤ S.size := by
  have h := S.card_le_size
  rwa [Fintype.card_fin] at h

/-- With a free pid there are at most five processes. -/
theorem size_lt_six {S : Forest} {p : Pid} (h : ¬ S.Mem p) : S.size < 6 := by
  -- the free pid is none of the members, so they are not all six pids
  have hlt : (S.members : Finset Pid).card < (Finset.univ : Finset Pid).card :=
    Finset.card_lt_card (Finset.ssubset_univ_iff.mpr fun huniv =>
      h (RootedStacks.mem_members.mp (huniv ▸ Finset.mem_univ p)))
  rw [Finset.card_univ, Fintype.card_fin] at hlt
  rwa [← S.card_members]

end Forest

/-! ## The parts of the calls on parent pointers -/

namespace Procs

variable (ps : Procs) (i parent p : Pid)

@[simp]
theorem parent_take (page : Buffer) : (ps.take i page).parent p = ps.parent p := rfl

@[simp]
theorem pcbs_take (page : Buffer) : (ps.take i page).pcbs = ps.pcbs := rfl

@[simp]
theorem parent_enter : (ps.enter i).parent p = ps.parent p := rfl

@[simp]
theorem pcbs_enter : (ps.enter i).pcbs = ps.pcbs := rfl

theorem parent_fill (cmd : Command) :
    (ps.fill i cmd).parent p = if p = i then ps.newParent else ps.parent p := by
  by_cases h : p = i <;> simp [Procs.parent, fill, Pcb.init, h]

theorem thePid_fill (cmd : Command) :
    ((ps.fill i cmd).pcbs p).thePid = if p = i then i else (ps.pcbs p).thePid := by
  by_cases h : p = i <;> simp [fill, Pcb.init, h]

@[simp]
theorem thePid_markShell (eip : Word) :
    ((ps.markShell i eip).pcbs p).thePid = (ps.pcbs p).thePid := by
  by_cases h : p = i <;> simp [markShell, setPcb, h]

@[simp]
theorem parent_block (e j : Word) : (ps.block parent i e j).parent p = ps.parent p := by
  by_cases h : p = parent <;> simp [Procs.parent, block, h]

@[simp]
theorem thePid_block (e j : Word) :
    ((ps.block parent i e j).pcbs p).thePid = (ps.pcbs p).thePid := by
  by_cases h : p = parent <;> simp [block, h]

@[simp]
theorem parent_interrupt (esp : Word) : (ps.interrupt esp).parent p = ps.parent p := by
  by_cases h : p = ps.currPid <;> simp [Procs.parent, interrupt, h]

@[simp]
theorem thePid_interrupt (esp : Word) :
    ((ps.interrupt esp).pcbs p).thePid = (ps.pcbs p).thePid := by
  by_cases h : p = ps.currPid <;> simp [interrupt, h]

@[simp]
theorem parent_switchTo (t : TermId) : (ps.switchTo t).parent p = ps.parent p := by
  by_cases h : p = (ps.terminal t).pid <;> simp [Procs.parent, switchTo, h]

@[simp]
theorem thePid_switchTo (t : TermId) :
    ((ps.switchTo t).pcbs p).thePid = (ps.pcbs p).thePid := by
  by_cases h : p = (ps.terminal t).pid <;> simp [switchTo, h]

end Procs

namespace Layout

variable {ps ps' : Procs} {S : Forest} {t : TermId} {i p q : Pid}

/-- The process of a terminal is the top of its stack. -/
theorem pid_mem (h : Layout ps S) (t : TermId) : (ps.terminal t).pid ∈ S.stack t :=
  (h.walk t).head_mem

theorem currPid_mem (h : Layout ps S) : ps.currPid ∈ S.stack ps.currTerm :=
  h.currPid ▸ h.pid_mem ps.currTerm

/-- The running process prints to the page of its terminal. -/
theorem videoMapping (h : Layout ps S) : ps.videoMapping = videoPage ps.currTerm := by
  rw [Procs.videoMapping, h.cr3]
  exact h.mapped _ _ h.currPid_mem

/-- The root shells are busy. -/
theorem root_busy (h : Layout ps S) (hp : IsRootPid p) : ps.pcbStatusArray p ≠ 0#8 :=
  h.busy ⟨p.val, hp⟩ p (S.root_mem ⟨p.val, hp⟩)

theorem not_mem_of_free (h : Layout ps S) (hp : ps.pcbStatusArray p = 0#8) : ¬ S.Mem p :=
  fun ⟨t, ht⟩ => h.busy t p ht hp

theorem not_isRootPid_of_free (h : Layout ps S) (hp : ps.pcbStatusArray p = 0#8) :
    ¬ IsRootPid p := fun hroot => h.root_busy hroot hp

/-- Two terminals never run the same process. -/
theorem pid_injective (h : Layout ps S) {t t' : TermId}
    (heq : (ps.terminal t).pid = (ps.terminal t').pid) : t = t' :=
  S.index_unique (h.pid_mem t) (heq ▸ h.pid_mem t')

/-- Below any other running process lies its parent, on the stack of the current terminal. -/
theorem stack_of_child (h : Layout ps S) (hroot : ¬ IsRootPid ps.currPid) :
    ∃ parent l, S.stack ps.currTerm = ps.currPid :: parent :: l ∧
      ps.parent ps.currPid = some parent ∧
      Walk ps.parent IsRootPid parent (parent :: l) := by
  have hwalk := h.walk ps.currTerm
  rw [← h.currPid] at hwalk
  exact hwalk.exists_tail hroot

/-- The parent of a process on a stack is on the same stack. -/
theorem parent_mem (h : Layout ps S) (hp : p ∈ S.stack t) (hroot : ¬ IsRootPid p)
    (hparent : ps.parent p = some q) : q ∈ S.stack t :=
  List.mem_of_mem_tail ((h.walk t).next_mem_tail hp hroot hparent)

/-- The running process waits for no other one: it is the parent of no process on the stacks. -/
theorem parent_ne_currPid (h : Layout ps S) (hp : p ∈ S.stack t) (hroot : ¬ IsRootPid p)
    (hparent : ps.parent p = some q) : q ≠ ps.currPid := by
  rintro rfl
  have htail := (h.walk t).next_mem_tail hp hroot hparent
  obtain rfl := S.index_unique (List.mem_of_mem_tail htail) h.currPid_mem
  -- the running process is on top of its stack, and a parent is below the top
  obtain ⟨l, hl⟩ := (h.walk ps.currTerm).eq_cons
  have hnodup := S.nodup ps.currTerm
  rw [← h.currPid] at hl
  rw [hl, List.tail_cons] at htail
  rw [hl] at hnodup
  exact (List.nodup_cons.mp hnodup).1 htail

/-- A table that lays the stacks out in the same way. -/
theorem congr (h : Layout ps S) (hparent : ∀ t, ∀ p ∈ S.stack t, ps'.parent p = ps.parent p)
    (hterminal : ∀ t, (ps'.terminal t).pid = (ps.terminal t).pid)
    (hbusy : ∀ t, ∀ p ∈ S.stack t, ps'.pcbStatusArray p ≠ 0#8)
    (hthePid : ∀ t, ∀ p ∈ S.stack t, (ps'.pcbs p).thePid = p)
    (hmapped : ∀ t, ∀ p ∈ S.stack t, ps'.pageTable p = videoPage t)
    (hcurrPid : ps'.currPid = (ps'.terminal ps'.currTerm).pid) (hcr3 : ps'.cr3 = ps'.currPid)
    (hroot : ps'.activeRootShell = 3#8)
    (hterm : ∀ t, (ps'.terminal t).term = t) : Layout ps' S where
  walk t := by
    rw [hterminal t]
    exact (h.walk t).congr fun p hp _ => hparent t p hp
  busy := hbusy
  thePid := hthePid
  mapped := hmapped
  currPid := hcurrPid
  cr3 := hcr3
  activeRootShell := hroot
  term := hterm

/-! ## What the parts of the calls do to the stacks -/

/-- A tick without a switch. -/
theorem interrupt (h : Layout ps S) (esp : Word) : Layout (ps.interrupt esp) S := by
  refine h.congr (fun t p _ => ps.parent_interrupt p esp) (fun _ => rfl) h.busy ?_ h.mapped
    h.currPid h.cr3 h.activeRootShell h.term
  intro t p hp
  rw [Procs.thePid_interrupt]
  exact h.thePid t p hp

/-- A switch to the task of a terminal. -/
theorem switchTo (h : Layout ps S) (t : TermId) : Layout (ps.switchTo t) S := by
  refine h.congr (fun _ p _ => ps.parent_switchTo p t) (fun _ => rfl) h.busy ?_ h.mapped
    ?_ rfl h.activeRootShell h.term
  · intro t' p hp
    rw [Procs.thePid_switchTo]
    exact h.thePid t' p hp
  · rw [Procs.switchTo]
    simp only [h.term t]

/-- Activating a task. -/
theorem activate (h : Layout ps S) (t : TermId) :
    Layout { ps with
      terminal := Function.update ps.terminal t { ps.terminal t with active := true } } S := by
  refine h.congr (fun _ _ _ => rfl) (ps.pid_activate t) h.busy h.thePid h.mapped ?_ h.cr3
    h.activeRootShell fun t' => ?_
  · rw [ps.pid_activate]
    exact h.currPid
  · rw [ps.term_activate]
    exact h.term t'

/-- A failed load marks a process that is on no stack. -/
theorem leak (h : Layout ps S) (hi : ps.pcbStatusArray i = 0#8) (page : Buffer) :
    Layout ((ps.take i page).flushTlb ps.currPid) S := by
  have hroot : ¬ IsRootPid i := h.not_isRootPid_of_free hi
  refine h.congr (fun _ _ _ => rfl) (fun _ => rfl) ?_ h.thePid h.mapped h.currPid rfl ?_ h.term
  · intro t p hp
    have hne : p ≠ i := by
      rintro rfl
      exact h.busy t p hp hi
    simpa [Procs.take, Procs.flushTlb, hne] using h.busy t p hp
  · simp [Procs.take, Procs.flushTlb, hroot, h.activeRootShell]

/-- A launch pushes the new process on the stack of the current terminal. -/
theorem launch (h : Layout ps S) (hi : ps.pcbStatusArray i = 0#8) (page : Buffer)
    (hnew : (ps.take i page).newParent = some ps.currPid) (cmd : Command) (e j : Word) :
    Layout ((((ps.take i page).fill i cmd).enter i).block ps.currPid i e j)
      (S.push ps.currTerm i (h.not_mem_of_free hi)) := by
  have hmem := h.not_mem_of_free hi
  have hroot : ¬ IsRootPid i := h.not_isRootPid_of_free hi
  have hne : ∀ {t p}, p ∈ S.stack t → p ≠ i := by
    rintro t p hp rfl
    exact hmem ⟨t, hp⟩
  -- the parent pointers: that of `i` is the running process, the others stay
  have hparent : ∀ p, ((((ps.take i page).fill i cmd).enter i).block ps.currPid i e j).parent p =
      if p = i then some ps.currPid else ps.parent p := by
    intro p
    rw [Procs.parent_block, Procs.parent_enter, Procs.parent_fill, hnew,
      Procs.parent_take]
  have hthePid : ∀ p, (((((ps.take i page).fill i cmd).enter i).block ps.currPid i e j).pcbs
      p).thePid = if p = i then i else (ps.pcbs p).thePid := by
    intro p
    rw [Procs.thePid_block, Procs.pcbs_enter, Procs.thePid_fill]
    rfl
  -- the old stacks are still there: no process on them is the new one
  have hold : ∀ t, Walk ((((ps.take i page).fill i cmd).enter i).block ps.currPid i e j).parent
      IsRootPid (ps.terminal t).pid (S.stack t) := fun t =>
    (h.walk t).congr fun p hp _ => by rw [hparent, if_neg (hne hp)]
  constructor
  case walk =>
    intro t
    by_cases ht : t = ps.currTerm
    · subst ht
      -- the new process is the top, and its parent pointer leads to the old top
      have htop : (((((ps.take i page).fill i cmd).enter i).block ps.currPid i e j).terminal
          ps.currTerm).pid = i := by
        simp [Procs.block, Procs.enter, Procs.fill, Procs.take]
      rw [htop, RootedStacks.push_stack_self]
      have hrest := hold ps.currTerm
      rw [← h.currPid] at hrest
      exact .step hroot (by rw [hparent, if_pos rfl]) hrest
    · have hpid : (((((ps.take i page).fill i cmd).enter i).block ps.currPid i e j).terminal
          t).pid = (ps.terminal t).pid := by
        simp [Procs.block, Procs.enter, Procs.fill, Procs.take, ht]
      rw [hpid, RootedStacks.push_stack_of_ne hmem ht]
      exact hold t
  case busy =>
    intro t p hp
    rcases (RootedStacks.mem_push_stack hmem).mp hp with ⟨rfl, -⟩ | hp
    · simp [Procs.block, Procs.enter, Procs.fill, Procs.take]
    · simpa [Procs.block, Procs.enter, Procs.fill, Procs.take, hne hp] using h.busy t p hp
  case thePid =>
    intro t p hp
    rw [hthePid]
    rcases (RootedStacks.mem_push_stack hmem).mp hp with ⟨rfl, -⟩ | hp
    · rw [if_pos rfl]
    · rw [if_neg (hne hp)]
      exact h.thePid t p hp
  case mapped =>
    intro t p hp
    rcases (RootedStacks.mem_push_stack hmem).mp hp with ⟨rfl, rfl⟩ | hp
    · simp [Procs.block, Procs.enter, Procs.fill, Procs.take]
    · simpa [Procs.block, Procs.enter, Procs.fill, Procs.take, hne hp] using h.mapped t p hp
  case currPid => simp [Procs.block, Procs.enter, Procs.fill, Procs.take]
  case cr3 => rfl
  case activeRootShell =>
    simp [Procs.block, Procs.enter, Procs.fill, Procs.take, hroot, h.activeRootShell]
  case term =>
    intro t
    by_cases ht : t = ps.currTerm <;>
      simp [Procs.block, Procs.enter, Procs.fill, Procs.take, ht, h.term]

/-- A return to the parent pops the running process. -/
theorem leave (h : Layout ps S) {l : List Pid}
    (hstack : S.stack ps.currTerm = ps.currPid :: p :: l)
    (hwalk : Walk ps.parent IsRootPid p (p :: l)) (hlen : 1 < (S.stack ps.currTerm).length) :
    Layout (ps.decActive.leave p) (S.pop ps.currTerm hlen) := by
  have hp : p ∈ S.stack ps.currTerm := by simp [hstack]
  have hpid : (ps.pcbs p).thePid = p := h.thePid _ p hp
  -- the running process is on no stack any more, so its freed entry does not matter
  have hne : ∀ {t q}, q ∈ (S.pop ps.currTerm hlen).stack t → q ≠ ps.currPid := by
    rintro t q hq rfl
    exact RootedStacks.not_mem_pop hlen (by simp [hstack]) ⟨t, hq⟩
  constructor
  case walk =>
    intro t
    by_cases ht : t = ps.currTerm
    · subst ht
      -- its terminal gets the parent, from which the rest of the stack goes on
      have htop : ((ps.decActive.leave p).terminal ps.currTerm).pid = p := by
        simp [Procs.leave, Procs.decActive, hpid]
      rw [htop, RootedStacks.pop_stack_self, hstack]
      exact hwalk
    · have htop : ((ps.decActive.leave p).terminal t).pid = (ps.terminal t).pid := by
        simp [Procs.leave, Procs.decActive, ht]
      rw [htop, RootedStacks.pop_stack_of_ne hlen ht]
      exact h.walk t
  case busy =>
    intro t q hq
    simpa [Procs.leave, Procs.decActive, hne hq] using
      h.busy t q (RootedStacks.mem_of_mem_pop_stack hlen hq)
  case thePid => exact fun t q hq => h.thePid t q (RootedStacks.mem_of_mem_pop_stack hlen hq)
  case mapped => exact fun t q hq => h.mapped t q (RootedStacks.mem_of_mem_pop_stack hlen hq)
  case currPid => simp [Procs.leave, Procs.decActive]
  case cr3 => rfl
  case activeRootShell => exact h.activeRootShell
  case term =>
    intro t
    by_cases ht : t = ps.currTerm <;> simp [Procs.leave, Procs.decActive, ht, h.term]

/-- A root shell that leaves is the first free process, and the only root shell that is free. -/
theorem first_free_of_freeRoot (h : Layout ps S) (hroot : IsRootPid ps.currPid)
    (hfree : ps.decActive.freeRoot.pcbStatusArray i = 0#8)
    (hfirst : ∀ j < i, ps.decActive.freeRoot.pcbStatusArray j ≠ 0#8) : i = ps.currPid := by
  have hstatus : ∀ j, ps.decActive.freeRoot.pcbStatusArray j =
      if j = ps.currPid then 0#8 else ps.pcbStatusArray j := by
    intro j
    by_cases hj : j = ps.currPid <;> simp [Procs.freeRoot, Procs.decActive, hj]
  by_contra hne
  rw [hstatus, if_neg hne] at hfree
  rcases lt_or_gt_of_ne hne with hlt | hgt
  · -- a smaller pid is a root shell too, and busy
    have hroot' : i.val < 3 := lt_trans hlt hroot
    exact h.root_busy hroot' hfree
  · exact hfirst _ hgt (by rw [hstatus, if_pos rfl])

/-- The new root shell takes the place of the old one. -/
theorem respawn (h : Layout ps S) (hroot : IsRootPid ps.currPid) (page : Buffer)
    (cmd : Command) :
    Layout (((ps.decActive.freeRoot.take ps.currPid page).fill ps.currPid cmd).enter
      ps.currPid) S := by
  have hparent : ∀ p, p ≠ ps.currPid →
      (((ps.decActive.freeRoot.take ps.currPid page).fill ps.currPid cmd).enter
        ps.currPid).parent p = ps.parent p := by
    intro p hp
    rw [Procs.parent_enter, Procs.parent_fill, if_neg hp]
    rfl
  constructor
  case walk =>
    intro t
    have htop : ((((ps.decActive.freeRoot.take ps.currPid page).fill ps.currPid cmd).enter
      ps.currPid).terminal t).pid = (ps.terminal t).pid := rfl
    rw [htop]
    refine (h.walk t).congr fun p _ hp => hparent p ?_
    -- a walk does not follow the parent pointer of a root shell, which alone has changed
    rintro rfl
    exact hp hroot
  case busy =>
    intro t p hp
    by_cases hpc : p = ps.currPid
    · simp [Procs.enter, Procs.fill, Procs.take, hpc]
    · simpa [Procs.enter, Procs.fill, Procs.take, Procs.freeRoot, Procs.decActive, hpc] using
        h.busy t p hp
  case thePid =>
    intro t p hp
    rw [Procs.pcbs_enter, Procs.thePid_fill]
    split_ifs with hpc
    · exact hpc.symm
    · exact h.thePid t p hp
  case mapped =>
    intro t p hp
    by_cases hpc : p = ps.currPid
    · subst hpc
      -- it is on the stack of the current terminal, whose page it gets
      rw [S.index_unique hp h.currPid_mem]
      simp [Procs.enter, Procs.fill, Procs.take, Procs.freeRoot, Procs.decActive]
    · simpa [Procs.enter, Procs.fill, Procs.take, Procs.freeRoot, Procs.decActive, hpc] using
        h.mapped t p hp
  case currPid => exact h.currPid
  case cr3 => rfl
  case activeRootShell =>
    simp [Procs.enter, Procs.fill, Procs.take, Procs.freeRoot, Procs.decActive, hroot,
      h.activeRootShell]
  case term => exact h.term

/-! ## Whole calls -/

section Calls

variable {env : Env} {command stack : Buffer} {k k' : Kernel} {r : ExecResult} {status : Byte}
  {hr : HaltResult}

/-- A call of `execute` by the running process, which the new process gets as its parent. It returns
without having touched the table, it returns with a leaked process, or the new process runs above
its caller. -/
theorem execute_cases (h : Layout k.procs S)
    (hnew : ∀ {i}, k.procs.pcbStatusArray i = 0#8 → ∀ page,
      (k.procs.take i page).newParent = some k.procs.currPid)
    (hx : execute env command stack k = some (r, k')) :
    (∃ e, r = .exit e ∧ k'.procs = k.procs) ∨
    (∃ cmd prog i page, parseCommand command = some cmd ∧
      findProgram env.img cmd stack = .ok prog ∧
      LoadFails env.img prog.inodeNum (k.procs.progPage i) ∧
      k.procs.pcbStatusArray i = 0#8 ∧ r = .exit .loadFail ∧
      k'.procs = (k.procs.take i page).flushTlb k.procs.currPid) ∨
    (∃ cmd eip i page, parseCommand command = some cmd ∧
      k.procs.pcbStatusArray i = 0#8 ∧ r = .userMode eip ∧
      k'.procs = (((k.procs.take i page).fill i cmd).enter i).block k.procs.currPid i
        (k.procs.tss.esp0 - env.executeFrame)
        (k.procs.tss.esp0 - env.executeFrame - env.jumpFrame)) := by
  -- the new process is no root shell, so all three of them are counted already
  have hthree : ∀ {i : Pid}, ¬ IsRootPid i → ∀ page,
      (k.procs.take i page).activeRootShell = 3#8 := by
    intro i hi page
    simp [Procs.take, hi, h.activeRootShell]
  cases Ece391.execute_cases hx with
  | early hcmd hfind hk' =>
    exact Or.inl ⟨_, rfl, by rw [procs_exitEarly hk', Kernel.procs_disableIrq]⟩
  | maximumProcesses hcmd hfind hbusy hk' =>
    exact Or.inl ⟨_, rfl, by
      rw [Kernel.procs_enableIrq, procs_puts hk', Kernel.procs_disableIrq]⟩
  | loadFail hcmd hfind hfree hfirst hpage hload =>
    exact Or.inr (Or.inl ⟨_, _, _, _, hcmd, hfind, hload, hfree, rfl, rfl⟩)
  -- not with three root shells counted
  | rootShellReady hcmd hfind hfree hfirst hpage hload hroot =>
    rw [hthree (h.not_isRootPid_of_free hfree)] at hroot
    exact absurd hroot (by decide)
  -- not with a pid that was free
  | root hcmd hfind hfree hfirst hpage hload hroot hi =>
    exact absurd hi (h.not_isRootPid_of_free hfree)
  -- the new process gets the caller as its parent
  | @child cmd prog i parent page hcmd hfind hfree hfirst hpage hload hroot hi hparent =>
    rw [hnew hfree] at hparent
    cases hparent
    exact Or.inr (Or.inr ⟨cmd, _, i, page, hcmd, hfree, rfl, rfl⟩)

/-- A call of `halt` by the running process: a root shell is replaced by a new one on the same pid,
any other process returns to its parent. -/
theorem halt_cases (hshell : ValidShell env.img) (h : Layout k.procs S)
    (hx : halt env status stack k = some (hr, k')) :
    (IsRootPid k.procs.currPid ∧ ∃ cmd eip page, hr = .respawned eip ∧
      k'.procs = ((k.procs.decActive.freeRoot.take k.procs.currPid page).fill
        k.procs.currPid cmd).enter k.procs.currPid) ∨
    (¬ IsRootPid k.procs.currPid ∧ ∃ parent l,
      S.stack k.procs.currTerm = k.procs.currPid :: parent :: l ∧
      Walk k.procs.parent IsRootPid parent (parent :: l) ∧ hr = .exitToShell status parent ∧
      k'.procs = k.procs.decActive.leave parent) := by
  by_cases hroot : IsRootPid k.procs.currPid
  · left
    refine ⟨hroot, ?_⟩
    obtain ⟨con, k₁, result, hcon, hx₁, hres⟩ := halt_root hroot hx
    -- the root shell is taken off the count of three and counted again
    have hone : ∀ page, (k.procs.decActive.freeRoot.take k.procs.currPid page).activeRootShell =
        3#8 := by
      intro page
      simp [Procs.take, Procs.freeRoot, Procs.decActive, hroot, h.activeRootShell]
    cases Ece391.execute_cases hx₁ with
    -- the file `shell` is there and has a valid header
    | early hcmd hfind hk' =>
      obtain ⟨prog, hprog, -⟩ := findProgram_shell hshell hcmd stack
      rw [hprog] at hfind
      cases hfind
    -- the pid that has just been freed is free
    | maximumProcesses hcmd hfind hbusy hk' =>
      exact absurd (by simp [Procs.freeRoot, Procs.decActive]) (hbusy k.procs.currPid)
    | loadFail hcmd hfind hfree hfirst hpage hload =>
      obtain ⟨prog, hprog, hloads⟩ := findProgram_shell hshell hcmd stack
      rw [hprog] at hfind
      cases hfind
      exact absurd hload (hloads _)
    | rootShellReady hcmd hfind hfree hfirst hpage hload hready =>
      obtain rfl := h.first_free_of_freeRoot hroot hfree hfirst
      rw [hone] at hready
      exact absurd hready (by decide)
    -- the first free pid is that of the root shell itself
    | root hcmd hfind hfree hfirst hpage hload hready hi =>
      obtain rfl := h.first_free_of_freeRoot hroot hfree hfirst
      rcases hres with ⟨eip, heip, rfl, rfl⟩ | ⟨hno, -⟩
      · exact ⟨_, eip, _, rfl, rfl⟩
      · exact absurd rfl (hno _)
    | child hcmd hfind hfree hfirst hpage hload hready hi hparent =>
      obtain rfl := h.first_free_of_freeRoot hroot hfree hfirst
      exact absurd hroot hi
  · right
    refine ⟨hroot, ?_⟩
    rw [halt_child hroot] at hx
    obtain ⟨parent, hparent, rfl, rfl⟩ := haltChild_eq_some.mp hx
    -- the parent that `halt` follows is the next process on the stack
    obtain ⟨p, l, hstack, hp, hwalk⟩ := h.stack_of_child hroot
    obtain rfl := Option.some.inj (hp.symm.trans hparent)
    refine ⟨p, l, hstack, hwalk, ?_, rfl⟩
    have hpid : (k.procs.pcbs p).thePid = p := h.thePid k.procs.currTerm p (by simp [hstack])
    simp [Procs.leave, Procs.decActive, hpid]

theorem contextSwitch (h : Layout k.procs S) (esp : Word) :
    Layout (contextSwitch esp k).2.procs S := by
  rw [procs_contextSwitch]
  split_ifs
  · exact h.interrupt esp
  · exact (h.interrupt esp).switchTo _

theorem switchTerm (h : Layout k.procs S) (t : TermId) :
    Layout (switchTerm t k).procs S := by
  rw [procs_switchTerm]
  split_ifs
  · exact h
  · exact h.activate t

end Calls

end Layout

namespace Represents

variable {ps : Procs} {S : Forest} {i p : Pid}

/-- With a free pid, the counter test of `execute` finds the running process as the parent. -/
theorem newParent_eq (h : Represents ps S) (hi : ps.pcbStatusArray i = 0#8) (page : Buffer) :
    (ps.take i page).newParent = some ps.currPid := by
  have hlt := Forest.size_lt_six (h.not_mem_of_free hi)
  have hge := Forest.three_le_size S
  -- the counter is between 3 and 5, and one is added to it before the test
  have hnum : ps.activeProcNum + 1#8 > 3#8 := by
    rw [h.activeProcNum, ← BitVec.ofNat_add, gt_iff_lt, BitVec.lt_def, BitVec.toNat_ofNat,
      BitVec.toNat_ofNat]
    omega
  rw [Procs.newParent, if_pos (by exact hnum)]
  rfl

/-- What the program pages hold is not part of the table. -/
theorem setPages (h : Represents ps S) (pages : Pid → Buffer) :
    Represents { ps with progPage := pages } S :=
  ⟨h.toLayout.congr (fun _ _ _ => rfl) (fun _ => rfl) h.busy h.thePid h.mapped h.currPid h.cr3
    h.activeRootShell h.term, h.activeProcNum⟩

theorem leak (h : Represents ps S) (hi : ps.pcbStatusArray i = 0#8) (page : Buffer) :
    Represents ((ps.take i page).flushTlb ps.currPid) S :=
  ⟨h.toLayout.leak hi page, h.activeProcNum⟩

theorem launch (h : Represents ps S) (hi : ps.pcbStatusArray i = 0#8) (page : Buffer)
    (cmd : Command) (e j : Word) :
    Represents ((((ps.take i page).fill i cmd).enter i).block ps.currPid i e j)
      (S.push ps.currTerm i (h.not_mem_of_free hi)) := by
  refine ⟨h.toLayout.launch hi page (h.newParent_eq hi page) cmd e j, ?_⟩
  rw [RootedStacks.size_push, BitVec.ofNat_add, ← h.activeProcNum]
  rfl

/-- The parent of the new process is the one that was running. -/
theorem parent_launch (h : Represents ps S) (hi : ps.pcbStatusArray i = 0#8) (page : Buffer)
    (cmd : Command) (e j : Word) (p : Pid) :
    ((((ps.take i page).fill i cmd).enter i).block ps.currPid i e j).parent p =
      if p = i then some ps.currPid else ps.parent p := by
  rw [Procs.parent_block, Procs.parent_enter, Procs.parent_fill, h.newParent_eq hi page,
    Procs.parent_take]

/-- The PCB of the process that was running still holds its pid. -/
theorem thePid_launch (h : Represents ps S) (hi : ps.pcbStatusArray i = 0#8) (page : Buffer)
    (cmd : Command) (e j : Word) :
    (((((ps.take i page).fill i cmd).enter i).block ps.currPid i e j).pcbs ps.currPid).thePid =
      ps.currPid := by
  apply (h.launch hi page cmd e j).thePid ps.currTerm
  exact (RootedStacks.mem_push_stack _).mpr (Or.inr h.currPid_mem)

theorem leave (h : Represents ps S) {l : List Pid}
    (hstack : S.stack ps.currTerm = ps.currPid :: p :: l)
    (hwalk : Walk ps.parent IsRootPid p (p :: l)) (hlen : 1 < (S.stack ps.currTerm).length) :
    Represents (ps.decActive.leave p) (S.pop ps.currTerm hlen) := by
  refine ⟨h.toLayout.leave hstack hwalk hlen, ?_⟩
  have hnum : ps.activeProcNum - 1#8 = BitVec.ofNat 8 (S.pop ps.currTerm hlen).size := by
    rw [h.activeProcNum, ← RootedStacks.size_pop hlen, BitVec.ofNat_add, BitVec.add_sub_cancel]
  exact hnum

theorem respawn (h : Represents ps S) (hroot : IsRootPid ps.currPid) (page : Buffer)
    (cmd : Command) :
    Represents (((ps.decActive.freeRoot.take ps.currPid page).fill ps.currPid cmd).enter
      ps.currPid) S := by
  refine ⟨h.toLayout.respawn hroot page cmd, ?_⟩
  have hnum : ps.activeProcNum - 1#8 + 1#8 = ps.activeProcNum := BitVec.sub_add_cancel _ _
  exact hnum.trans h.activeProcNum

section Calls

variable {env : Env} {command stack : Buffer} {k k' : Kernel} {r : ExecResult} {status : Byte}
  {hr : HaltResult}

theorem contextSwitch (h : Represents k.procs S) (esp : Word) :
    Represents (contextSwitch esp k).2.procs S := by
  refine ⟨h.toLayout.contextSwitch esp, ?_⟩
  rw [procs_contextSwitch]
  split_ifs
  · exact h.activeProcNum
  · exact h.activeProcNum

theorem switchTerm (h : Represents k.procs S) (t : TermId) :
    Represents (switchTerm t k).procs S := by
  refine ⟨h.toLayout.switchTerm t, ?_⟩
  rw [procs_switchTerm]
  split_ifs
  · exact h.activeProcNum
  · exact h.activeProcNum

theorem execute (h : Represents k.procs S) (hx : execute env command stack k = some (r, k')) :
    ∃ S', Represents k'.procs S' := by
  rcases h.execute_cases h.newParent_eq hx with ⟨e, -, hprocs⟩ |
    ⟨cmd, prog, i, page, -, -, -, hi, -, hprocs⟩ |
    ⟨cmd, eip, i, page, -, hi, -, hprocs⟩ <;> rw [hprocs]
  · exact ⟨S, h⟩
  · exact ⟨S, h.leak hi page⟩
  · exact ⟨_, h.launch hi page cmd _ _⟩

theorem halt (hshell : ValidShell env.img) (h : Represents k.procs S)
    (hx : halt env status stack k = some (hr, k')) : ∃ S', Represents k'.procs S' := by
  rcases h.halt_cases hshell hx with ⟨hroot, cmd, eip, page, -, hprocs⟩ |
    ⟨-, parent, l, hstack, hwalk, -, hprocs⟩ <;> rw [hprocs]
  · exact ⟨S, h.respawn hroot page cmd⟩
  · exact ⟨_, h.leave hstack hwalk (by simp [hstack])⟩

/-- The process table lays out three stacks in every state of a run. -/
theorem processStep {e : ProcessEvent} (hshell : ValidShell env.img) (h : Represents k.procs S)
    (hstep : processStep env k e = some k') : ∃ S', Represents k'.procs S' := by
  cases e with
  | execute command stack =>
    obtain ⟨⟨r, _⟩, hx, rfl⟩ := Option.map_eq_some_iff.mp hstep
    exact h.execute hx
  | halt status stack =>
    obtain ⟨⟨r, _⟩, hx, rfl⟩ := Option.map_eq_some_iff.mp hstep
    exact h.halt hshell hx
  | tick esp =>
    cases hstep
    exact ⟨S, h.contextSwitch esp⟩
  | switchTerm t =>
    cases hstep
    exact ⟨S, h.switchTerm t⟩

end Calls

end Represents

/-! ## The table without leaked processes -/

/-- The process table lays out the stacks `S`, and every busy process is on one of them. -/
structure Exact (ps : Procs) (S : Forest) : Prop extends Represents ps S where
  mem_of_busy : ∀ p, ps.pcbStatusArray p ≠ 0#8 → S.Mem p

namespace Exact

variable {ps : Procs} {S : Forest} {env : Env} {command stack : Buffer} {k k' : Kernel}
  {r : ExecResult} {status : Byte} {hr : HaltResult}

/-- The busy processes are those on the stacks. -/
theorem busy_iff_mem (h : Exact ps S) (p : Pid) : ps.pcbStatusArray p ≠ 0#8 ↔ S.Mem p :=
  ⟨h.mem_of_busy p, fun ⟨t, ht⟩ => h.busy t p ht⟩

/-- The counter of processes counts the busy entries of the table. -/
theorem activeProcNum_eq (h : Exact ps S) :
    ps.activeProcNum =
      BitVec.ofNat 8 (Finset.univ.filter fun p => ps.pcbStatusArray p ≠ 0#8).card := by
  have hmembers : (Finset.univ.filter fun p => ps.pcbStatusArray p ≠ 0#8) = S.members := by
    ext p
    rw [Finset.mem_filter_univ, RootedStacks.mem_members]
    exact h.busy_iff_mem p
  rw [hmembers, S.card_members, h.activeProcNum]

/-- Unless it names an empty file over a stale header, `execute` leaks no process. -/
theorem execute (h : Exact k.procs S)
    (hname : ∀ cmd, parseCommand command = some cmd → ¬ NamesEmptyFile env.img cmd stack)
    (hx : Ece391.execute env command stack k = some (r, k')) : ∃ S', Exact k'.procs S' := by
  rcases h.execute_cases h.newParent_eq hx with ⟨e, -, hprocs⟩ |
    ⟨cmd, prog, i, page, hcmd, hfind, hload, -, -, -⟩ |
    ⟨cmd, eip, i, page, -, hi, -, hprocs⟩
  · exact ⟨S, hprocs ▸ h⟩
  · -- a load fails for an empty file only
    exact absurd ((namesEmptyFile_iff _).mpr ⟨prog, hfind, hload⟩) (hname cmd hcmd)
  · refine ⟨_, hprocs ▸ h.toRepresents.launch hi page cmd _ _, ?_⟩
    intro p hp
    -- the busy processes are those before, and the new one
    by_cases hpi : p = i
    · exact ⟨k.procs.currTerm, (RootedStacks.mem_push_stack _).mpr (Or.inl ⟨hpi, rfl⟩)⟩
    · rw [hprocs] at hp
      obtain ⟨t, ht⟩ := h.mem_of_busy p (by
        simpa [Procs.block, Procs.enter, Procs.fill, Procs.take, hpi] using hp)
      exact ⟨t, (RootedStacks.mem_push_stack _).mpr (Or.inr ht)⟩

theorem halt (hshell : ValidShell env.img) (h : Exact k.procs S)
    (hx : Ece391.halt env status stack k = some (hr, k')) : ∃ S', Exact k'.procs S' := by
  rcases h.toRepresents.halt_cases hshell hx with ⟨hroot, cmd, eip, page, -, hprocs⟩ |
    ⟨-, parent, l, hstack, hwalk, -, hprocs⟩
  · refine ⟨S, hprocs ▸ h.toRepresents.respawn hroot page cmd, ?_⟩
    intro p hp
    -- the pid of the root shell is busy again
    by_cases hpc : p = k.procs.currPid
    · exact ⟨_, hpc ▸ h.currPid_mem⟩
    · rw [hprocs] at hp
      exact h.mem_of_busy p (by
        simpa [Procs.enter, Procs.fill, Procs.take, Procs.freeRoot, Procs.decActive, hpc] using hp)
  · have hlen : 1 < (S.stack k.procs.currTerm).length := by simp [hstack]
    refine ⟨S.pop k.procs.currTerm hlen, hprocs ▸ h.toRepresents.leave hstack hwalk hlen, ?_⟩
    intro p hp
    rw [hprocs] at hp
    -- the pid of the process is not busy any more
    have hpc : p ≠ k.procs.currPid := by
      rintro rfl
      exact hp (by simp [Procs.leave, Procs.decActive])
    obtain ⟨t, ht⟩ := h.mem_of_busy p (by simpa [Procs.leave, Procs.decActive, hpc] using hp)
    refine ⟨t, ?_⟩
    by_cases htc : t = k.procs.currTerm
    · subst htc
      rw [hstack] at ht
      rw [RootedStacks.pop_stack_self, hstack]
      exact (List.mem_cons.mp ht).resolve_left hpc
    · rwa [RootedStacks.pop_stack_of_ne hlen htc]

end Exact

end Ece391
