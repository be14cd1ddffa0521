import Ece391Os.Process.Halt

/-!
# The scheduler

`context_switch` of `schedule.c` with the tail of `timer`, `switch_term` of `terminal.c`, and the
processes as a transition system: the running process calls `execute` or `halt`, the timer ticks, or
the keyboard switches the terminal on screen.
-/

namespace Ece391

/-- What runs after a tick: the interrupted code, a root shell that has not run yet, or the code
whose registers lie at a saved stack pointer. -/
inductive Resume
  | stay
  | executeRootShell (eip : Word)
  | switchToProg (greatEsp : Word)
  deriving DecidableEq, Repr

namespace Procs

/-- The part of `context_switch` that always runs: save the stack pointer of the interrupted
process and turn the task list. -/
def interrupt (ps : Procs) (schedEsp : Word) : Procs :=
  { ps with
    pcbs := Function.update ps.pcbs ps.currPid
      { ps.pcbs ps.currPid with greatEsp := schedEsp }
    taskList :=
      { head := (ps.terminal ps.taskList.head).next
        tail := (ps.terminal ps.taskList.tail).next } }

/-- The process table with the task of terminal `future` as the running one. -/
def switchTo (ps : Procs) (future : TermId) : Procs :=
  let futurePid := (ps.terminal future).pid
  { ps with
    tss := { esp0 := kernelStackTop futurePid, ss0 := kernelDs }
    currTerm := (ps.terminal future).term
    currPid := futurePid
    cr3 := futurePid
    pcbs := Function.update ps.pcbs futurePid { ps.pcbs futurePid with shellFlag := false } }

/-- The task at the head of the list does not run: it is the running one or is not active. -/
def Stays (ps : Procs) : Prop :=
  (ps.terminal ps.taskList.head).pid = ps.currPid ∨ (ps.terminal ps.taskList.head).active = false

instance (ps : Procs) : Decidable ps.Stays := inferInstanceAs (Decidable (_ ∨ _))

/-- How the process `p` is resumed. -/
def resume (ps : Procs) (p : Pid) : Resume :=
  if (ps.pcbs p).shellFlag then .executeRootShell (ps.pcbs p).cmdEip
  else .switchToProg (ps.pcbs p).greatEsp

end Procs

/-- `context_switch` and the end of interrupt of the timer. Clearing a `shell_flag` that is already
clear changes nothing, so both branches end in the same process table. -/
def contextSwitch (schedEsp : Word) (k : Kernel) : Resume × Kernel :=
  let ps := k.procs.interrupt schedEsp
  if k.procs.Stays then (.stay, { k with procs := ps }.sendEoi 0#32)
  else
    (ps.resume (k.procs.terminal k.procs.taskList.head).pid,
      { k with procs := ps.switchTo k.procs.taskList.head }.sendEoi 0#32)

/-- `switch_term` -/
def switchTerm (toTerm : TermId) (k : Kernel) : Kernel :=
  if k.con.termOnScreen = toTerm then k
  else
    let crtc := Function.update (Function.update k.con.crtc 0x0C#8 (BitVec.ofNat 8 (0x10 * toTerm)))
      0x0D#8 0#8
    { k with
      procs := { k.procs with
        terminal := Function.update k.procs.terminal toTerm
          { k.procs.terminal toTerm with active := true } }
      con := Console.updateCursor { k.con with crtc, termOnScreen := toTerm } }

/-- A tick turns the task list, and switches unless the head of the list stays out. -/
theorem procs_contextSwitch (schedEsp : Word) (k : Kernel) :
    (contextSwitch schedEsp k).2.procs =
      if k.procs.Stays then k.procs.interrupt schedEsp
      else (k.procs.interrupt schedEsp).switchTo k.procs.taskList.head := by
  rw [contextSwitch]
  split_ifs <;> rfl

theorem procs_switchTerm (toTerm : TermId) (k : Kernel) :
    (switchTerm toTerm k).procs =
      if k.con.termOnScreen = toTerm then k.procs
      else { k.procs with
        terminal := Function.update k.procs.terminal toTerm
          { k.procs.terminal toTerm with active := true } } := by
  rw [switchTerm]
  split_ifs <;> rfl

/-- Activating a task keeps the process of every terminal. -/
theorem Procs.pid_activate (ps : Procs) (t t' : TermId) :
    (Function.update ps.terminal t { ps.terminal t with active := true } t').pid =
      (ps.terminal t').pid := by
  by_cases ht : t' = t <;> simp [ht]

/-- It keeps the number of every terminal. -/
theorem Procs.term_activate (ps : Procs) (t t' : TermId) :
    (Function.update ps.terminal t { ps.terminal t with active := true } t').term =
      (ps.terminal t').term := by
  by_cases ht : t' = t <;> simp [ht]

/-- What can happen to the processes. -/
inductive ProcessEvent
  /-- The running process calls `execute`; the array `ELFheader` of the call starts as `stack`. -/
  | execute (command stack : Buffer)
  /-- The running process calls `halt`. -/
  | halt (status : Byte) (stack : Buffer)
  /-- The timer interrupts the running process, which has its registers saved at `schedEsp`. -/
  | tick (schedEsp : Word)
  /-- The keyboard switches to a terminal. -/
  | switchTerm (toTerm : TermId)

/-- One atomic step of the processes. -/
def processStep (env : Env) (k : Kernel) : ProcessEvent → Option Kernel
  | .execute command stack => (execute env command stack k).map Prod.snd
  | .halt status stack => (halt env status stack k).map Prod.snd
  | .tick schedEsp => some (contextSwitch schedEsp k).2
  | .switchTerm toTerm => some (switchTerm toTerm k)

end Ece391
