import Ece391Os.Kernel.Handlers
import Ece391Os.Process.Preemption

/-!
# Saved contexts

The timer's handler pushes nine registers on the kernel stack of the process it has interrupted,
above them lies the frame of the interrupt, and `switch_to_prog` pops them when the process's turn
comes.

* `contextStep` is the step of the processes with the memory of the kernel stacks: a tick pushes the
  registers, and everything the kernel does may write to the stack of the process it does it for.
* `OnStack` says that the kernel stacks do not overflow: no event writes to the stack of another
  process, and a tick finds room for its context.
* `Parked` is the invariant: the task of every terminal that does not run has not been started, or
  has its latest context intact on its stack.
* `along_roundTrip`: `switch_to_prog` restores what the latest tick that interrupted the process has
  pushed, and a process without a context is never resumed by it.
-/

namespace Ece391

open I386 Transition

/-! ## Kernel stacks -/

/-- `sizeof(pcb_t)` -/
def pcbSize : ℕ := 320

/-- `pcb_ptr_array` -/
def pcbPtr (p : Pid) : ℕ := 0x7FE000 - 0x2000 * p.val

/-- The kernel stack of a process: its 8 KB block without the PCB at the bottom. -/
def InKernelStack (p : Pid) (a : Word) : Prop :=
  pcbPtr p + pcbSize ≤ a.toNat ∧ a.toNat < pcbPtr p + 0x2000

instance (p : Pid) (a : Word) : Decidable (InKernelStack p a) := inferInstanceAs (Decidable (_ ∧ _))

/-- The kernel stacks of two processes are disjoint. -/
theorem inKernelStack_unique {p q : Pid} {a : Word} (hp : InKernelStack p a)
    (hq : InKernelStack q a) : p = q := by
  have hp6 := p.isLt
  have hq6 := q.isLt
  simp only [InKernelStack, pcbPtr, pcbSize] at hp hq
  apply Fin.ext
  omega

/-! ## The system -/

/-- The context a tick has pushed: the interrupted code, and the stack pointer behind the pushes. -/
structure Context where
  cpu : Cpu
  esp : Word

/-- The words of a context, from the stack pointer up: the registers, and the frame. -/
def Context.words (x : Context) : List Word :=
  (x.cpu.frame ++ savedRegs.map x.cpu.get).reverse

theorem Context.length_words (x : Context) : x.words.length = 9 + x.cpu.frame.length := by
  rw [Context.words, List.length_reverse, List.length_append, List.length_map, Nat.add_comm]
  rfl

/-- The kernel with the memory of its stacks. For each process, `saved` is the context of the latest
tick that has interrupted it. -/
structure ContextState where
  kernel : Kernel
  mem : Memory
  saved : Pid → Option Context

/-- What can happen, and the memory it leaves. -/
inductive ContextAction
  /-- The running process does something that concerns no other one, such as a system call. -/
  | run
  | execute (command stack : Buffer)
  | halt (status : Byte) (stack : Buffer)
  /-- The timer interrupts the running process, whose registers are those of `regs`. -/
  | tick (regs : Cpu)
  | switchTerm (toTerm : TermId)

/-- An action with the memory the kernel has made of the old one when it ends. -/
structure ContextEvent where
  action : ContextAction
  mem : Memory

namespace ContextState

/-- The processor when `timer_hand` has pushed the registers of the code it has interrupted. -/
def pushed (s : ContextState) (regs : Cpu) : Cpu :=
  (Cpu.interrupt { regs with mem := s.mem } s.kernel.procs.tss.ss0 s.kernel.procs.tss.esp0 kernelCs
    0#32).pushAll savedRegs

/-- The context it has pushed: the stack pointer is `sched_esp`. -/
def context (s : ContextState) (regs : Cpu) : Context :=
  { cpu := { regs with mem := s.mem }, esp := (s.pushed regs).esp }

/-- A new process has not been interrupted. -/
def created (s : ContextState) (kernel : Kernel) (mem : Memory) : ContextState :=
  { kernel, mem, saved := Function.update s.saved kernel.procs.currPid none }

/-- The system that has booted. -/
def boot (k : Kernel) (mem : Memory) : ContextState :=
  { kernel := k, mem, saved := fun _ => none }

end ContextState

/-- One step. -/
def contextStep (env : Env) (s : ContextState) (e : ContextEvent) : Option ContextState :=
  match e.action with
  | .run => some { s with mem := e.mem }
  | .execute command stack =>
    (execute env command stack s.kernel).map fun (r, kernel) =>
      match r with
      | .userMode _ => s.created kernel e.mem
      | _ => { s with kernel, mem := e.mem }
  | .halt status stack =>
    (halt env status stack s.kernel).map fun (r, kernel) =>
      match r with
      | .respawned _ => s.created kernel e.mem
      | .exitToShell _ _ => { s with kernel, mem := e.mem }
  | .tick regs =>
    -- the context is pushed before the handler switches
    some
      { kernel := (contextSwitch (s.context regs).esp s.kernel).2
        mem := e.mem
        saved := Function.update s.saved s.kernel.procs.currPid (some (s.context regs)) }
  | .switchTerm toTerm => some { s with kernel := switchTerm toTerm s.kernel, mem := e.mem }

/-- The kernel stacks do not overflow: what is done for one process changes no other one's stack,
and the context of a tick lies on the stack of the process and is not overwritten by the handler. -/
structure OnStack (s : ContextState) (e : ContextEvent) : Prop where
  others : ∀ q, q ≠ s.kernel.procs.currPid → ∀ a, InKernelStack q a → e.mem a = s.mem a
  room : ∀ regs, e.action = .tick regs → ∀ j < 4 * (s.context regs).words.length,
    InKernelStack s.kernel.procs.currPid ((s.context regs).esp + BitVec.ofNat 32 j)
  kept : ∀ regs, e.action = .tick regs →
    Agree (s.context regs).esp (4 * (s.context regs).words.length) (s.pushed regs).mem e.mem

/-- The pops of `switch_to_prog` give the interrupted code its nine registers back, and below them
lies the frame of its interrupt. -/
def Restores (mem : Memory) (x : Context) : Prop :=
  ∀ d : Cpu, d.mem = mem → d.esp = x.esp →
    SameRegisters x.cpu (d.popAll restoredRegs) ∧
      words mem (d.popAll restoredRegs).esp x.cpu.frame.length = x.cpu.frame.reverse

/-- The process the step starts or resumes, with its context or without one. -/
structure RoundTrip (env : Env) (s : ContextState) (e : ContextEvent) : Prop where
  /-- `switch_to_prog` restores the latest context of the process. -/
  resumed : ∀ regs esp s', e.action = .tick regs → contextStep env s e = some s' →
    (contextSwitch (s.context regs).esp s.kernel).1 = .switchToProg esp →
    ∃ x, s'.saved s'.kernel.procs.currPid = some x ∧ x.esp = esp ∧ Restores s'.mem x
  /-- `execute_root_shell` starts a process that has no context, and is marked. -/
  firstRun : ∀ regs eip s', e.action = .tick regs → contextStep env s e = some s' →
    (contextSwitch (s.context regs).esp s.kernel).1 = .executeRootShell eip →
    s'.saved s'.kernel.procs.currPid = none ∧
      (s.kernel.procs.pcbs s'.kernel.procs.currPid).shellFlag = true
  /-- If the step enters a process without a context, it is the first run of a marked process, the
  `execute` that creates it, or the exit of a process that it waits for in its own call of
  `execute`. -/
  entered : ∀ s', contextStep env s e = some s' →
    s'.kernel.procs.currPid ≠ s.kernel.procs.currPid →
    s'.saved s'.kernel.procs.currPid = none →
    (∃ regs eip, e.action = .tick regs ∧
      (contextSwitch (s.context regs).esp s.kernel).1 = .executeRootShell eip) ∨
    (∃ command stack eip k, e.action = .execute command stack ∧
      execute env command stack s.kernel = some (.userMode eip, k) ∧
      k.procs.currPid = s'.kernel.procs.currPid) ∨
    ∃ status stack, e.action = .halt status stack ∧
      s.kernel.procs.parent s.kernel.procs.currPid = some s'.kernel.procs.currPid

/-! ## Intact contexts -/

/-- A context lies on the kernel stack of process `p`, as it was pushed. -/
structure Intact (mem : Memory) (p : Pid) (x : Context) : Prop where
  onStack : ∀ j < 4 * x.words.length, InKernelStack p (x.esp + BitVec.ofNat 32 j)
  words_eq : words mem x.esp x.words.length = x.words

namespace Intact

variable {mem mem' : Memory} {p : Pid} {x : Context}

/-- Writes to other stacks leave a context intact. -/
theorem congr (h : Intact mem p x) (hmem : ∀ a, InKernelStack p a → mem' a = mem a) :
    Intact mem' p x where
  onStack := h.onStack
  words_eq := by
    rw [words_congr fun j hj => hmem _ (h.onStack j hj)]
    exact h.words_eq

/-- What is popped off an intact context are the registers it was pushed from. -/
theorem restores (h : Intact mem p x) : Restores mem x := by
  rintro d rfl hesp
  have hwords : words d.mem d.esp 9 ++ words d.mem (d.esp + BitVec.ofNat 32 36)
      x.cpu.frame.length = restoredRegs.map x.cpu.get ++ x.cpu.frame.reverse := by
    rw [← words_add, hesp, ← x.length_words, h.words_eq, Context.words, List.reverse_append,
      ← List.map_reverse, restoredRegs_eq]
  obtain ⟨hregs, hframe⟩ := List.append_inj hwords (by simp [restoredRegs])
  refine ⟨fun r => ?_, ?_⟩
  · apply Cpu.get_popAll (by decide) hregs
    rw [restoredRegs_eq]
    exact List.mem_reverse.mpr (mem_savedRegs r)
  · rw [Cpu.popAll_eq]
    exact hframe

end Intact

/-- `timer_hand` leaves the context on the stack. -/
theorem words_pushed (s : ContextState) (regs : Cpu) :
    words (s.pushed regs).mem (s.context regs).esp (s.context regs).words.length =
      (s.context regs).words := by
  generalize hcode : ({ regs with mem := s.mem } : Cpu) = code
  generalize hentered : code.interrupt s.kernel.procs.tss.ss0 s.kernel.procs.tss.esp0 kernelCs
    0#32 = entered
  have hpushed : s.pushed regs = entered.pushAll savedRegs := by
    rw [ContextState.pushed, hcode, hentered]
  have hcpu : (s.context regs).cpu = code := hcode
  have hesp : (s.context regs).esp = (entered.pushAll savedRegs).esp := by
    rw [← hpushed]
    rfl
  have hget : entered.get = code.get := by
    funext r
    rw [← hentered]
    exact Cpu.get_interrupt
  -- the registers, and the frame above them
  have hregs : words (entered.pushAll savedRegs).mem (entered.pushAll savedRegs).esp 9 =
      (savedRegs.map code.get).reverse := by
    rw [← hget]
    apply Cpu.words_pushWords
    rw [List.length_map]
    decide
  have hbase : (entered.pushAll savedRegs).esp + BitVec.ofNat 32 (4 * 9) = entered.esp := by
    rw [Cpu.pushAll, Cpu.pushWords_eq]
    exact BitVec.sub_add_cancel _ _
  have hframe : words (entered.pushAll savedRegs).mem entered.esp code.frame.length =
      code.frame.reverse := by
    have hlen := code.length_frame_le
    rw [Cpu.pushAll, words_congr (Cpu.agree_pushWords ?_), ← hentered]
    · exact Cpu.words_interrupt
    · rw [List.length_map, show savedRegs.length = 9 from rfl]
      omega
  rw [Context.length_words, hesp, words_add, hpushed, hcpu, hregs, hbase, hframe, Context.words,
    hcpu, List.reverse_append]

/-! ## The invariant -/

/-- The stack pointer saved for the task of a terminal. -/
def ContextState.lastEsp (s : ContextState) (t : TermId) : Option Word :=
  (s.saved (s.kernel.procs.terminal t).pid).map Context.esp

/-- Every task that does not run is marked, or has its latest context intact. -/
structure Parked (s : ContextState) (S : Forest) : Prop extends Represents s.kernel.procs S where
  waiting : Waiting s.kernel.procs s.lastEsp
  intact : ∀ t, t ≠ s.kernel.procs.currTerm → ∀ x,
    s.saved (s.kernel.procs.terminal t).pid = some x →
      Intact s.mem (s.kernel.procs.terminal t).pid x

namespace Parked

variable {env : Env} {s s' : ContextState} {S S' : Forest} {e : ContextEvent} {k' : Kernel}
  {command stack : Buffer} {status : Byte} {r : ExecResult} {hr : HaltResult}

/-- A step that leaves the other terminals their tasks and contexts. -/
theorem congr (h : Parked s S) (honStack : OnStack s e) (hrep : Represents k'.procs S')
    {saved : Pid → Option Context}
    (hterm : k'.procs.currTerm = s.kernel.procs.currTerm)
    (hpid : ∀ t, t ≠ s.kernel.procs.currTerm →
      (k'.procs.terminal t).pid = (s.kernel.procs.terminal t).pid)
    (hflag : ∀ p, (k'.procs.pcbs p).shellFlag = (s.kernel.procs.pcbs p).shellFlag)
    (hesp : ∀ p, (k'.procs.pcbs p).greatEsp = (s.kernel.procs.pcbs p).greatEsp)
    (hsaved : ∀ t, t ≠ s.kernel.procs.currTerm →
      saved (s.kernel.procs.terminal t).pid = s.saved (s.kernel.procs.terminal t).pid) :
    Parked { kernel := k', mem := e.mem, saved } S' where
  toRepresents := hrep
  waiting := by
    refine (h.waiting.congr hterm (fun t ht heq => ?_) hpid hflag hesp).lastEsp_congr
      fun t ht => ?_
    · -- no other terminal has the new running process as its task
      rw [← hpid t ht, hrep.currPid] at heq
      exact ht ((hrep.pid_injective heq).trans hterm)
    · rw [hterm] at ht
      show (saved (k'.procs.terminal t).pid).map _ = _
      rw [hpid t ht, hsaved t ht]
      rfl
  intact t ht x hx := by
    have ht' : t ≠ s.kernel.procs.currTerm := hterm ▸ ht
    show Intact e.mem (k'.procs.terminal t).pid x
    -- what is saved for another terminal is what was saved
    have hx' : s.saved (s.kernel.procs.terminal t).pid = some x := by
      rw [← hsaved t ht', ← hpid t ht']
      exact hx
    rw [hpid t ht']
    exact (h.intact t ht' x hx').congr (honStack.others _ (h.waiting.own t ht'))

/-- A launch gives the new process no context, and the other terminals keep their tasks. -/
theorem created (h : Parked s S) (honStack : OnStack s e) (hrep : Represents k'.procs S')
    (hterm : k'.procs.currTerm = s.kernel.procs.currTerm)
    (hpid : ∀ t, t ≠ s.kernel.procs.currTerm →
      (k'.procs.terminal t).pid = (s.kernel.procs.terminal t).pid)
    (hflag : ∀ p, (k'.procs.pcbs p).shellFlag = (s.kernel.procs.pcbs p).shellFlag)
    (hesp : ∀ p, (k'.procs.pcbs p).greatEsp = (s.kernel.procs.pcbs p).greatEsp) :
    Parked (s.created k' e.mem) S' := by
  refine h.congr honStack hrep hterm hpid hflag hesp fun t ht => Function.update_of_ne ?_ _ _
  rw [← hpid t ht, hrep.currPid]
  exact fun heq => ht ((hrep.pid_injective heq).trans hterm)

/-- A tick saves the context of the running process; the others' stay. -/
theorem tick (h : Parked s S) {regs : Cpu} {mem : Memory}
    (honStack : OnStack s { action := .tick regs, mem }) :
    Parked
      { kernel := (contextSwitch (s.context regs).esp s.kernel).2
        mem
        saved := Function.update s.saved s.kernel.procs.currPid (some (s.context regs)) } S := by
  have hother : ∀ {t}, t ≠ s.kernel.procs.currTerm →
      (s.kernel.procs.terminal t).pid ≠ s.kernel.procs.currPid := fun ht => h.waiting.own _ ht
  -- the latest contexts, by terminal
  have hlast : ∀ t, (Function.update s.saved s.kernel.procs.currPid (some (s.context regs))
      (s.kernel.procs.terminal t).pid).map Context.esp =
      Function.update s.lastEsp s.kernel.procs.currTerm (some (s.context regs).esp) t := by
    intro t
    by_cases ht : t = s.kernel.procs.currTerm
    · rw [ht, ← h.currPid, Function.update_self, Function.update_self, Option.map_some]
    · rw [Function.update_of_ne (hother ht), Function.update_of_ne ht]
      rfl
  have hintact : ∀ t x, Function.update s.saved s.kernel.procs.currPid (some (s.context regs))
      (s.kernel.procs.terminal t).pid = some x → Intact mem (s.kernel.procs.terminal t).pid x := by
    intro t x hx
    by_cases ht : t = s.kernel.procs.currTerm
    · -- the context just pushed
      rw [ht, ← h.currPid, Function.update_self] at hx
      cases hx
      rw [ht, ← h.currPid]
      refine ⟨honStack.room regs rfl, ?_⟩
      rw [words_congr (honStack.kept regs rfl)]
      exact words_pushed s regs
    · rw [Function.update_of_ne (hother ht)] at hx
      exact (h.intact t ht x hx).congr (honStack.others _ (hother ht))
  have hterminal : (contextSwitch (s.context regs).esp s.kernel).2.procs.terminal =
      s.kernel.procs.terminal := by
    rw [procs_contextSwitch]
    split_ifs <;> rfl
  refine ⟨h.toRepresents.contextSwitch _, ?_, fun t _ x hx => ?_⟩
  · have hwaiting : Waiting (contextSwitch (s.context regs).esp s.kernel).2.procs
        (Function.update s.lastEsp s.kernel.procs.currTerm (some (s.context regs).esp)) := by
      rw [procs_contextSwitch]
      split_ifs
      · exact h.waiting.interrupt _
      · exact h.waiting.switch h.toLayout _ _
    refine hwaiting.lastEsp_congr fun t _ => ?_
    rw [← hlast, ContextState.lastEsp, hterminal]
  · have hx' : Function.update s.saved s.kernel.procs.currPid (some (s.context regs))
        ((contextSwitch (s.context regs).esp s.kernel).2.procs.terminal t).pid = some x := hx
    show Intact mem ((contextSwitch (s.context regs).esp s.kernel).2.procs.terminal t).pid x
    rw [hterminal] at hx' ⊢
    exact hintact t x hx'

/-- One step keeps the contexts. -/
theorem contextStep (hshell : ValidShell env.img) (h : Parked s S) (honStack : OnStack s e)
    (hstep : contextStep env s e = some s') : ∃ S', Parked s' S' := by
  obtain ⟨action, mem⟩ := e
  cases action with
  | run =>
    cases hstep
    exact ⟨S, h.congr honStack h.toRepresents rfl (fun _ _ => rfl) (fun _ => rfl) (fun _ => rfl)
      fun _ _ => rfl⟩
  | execute command stack =>
    obtain ⟨⟨r, k'⟩, hx, rfl⟩ := Option.map_eq_some_iff.mp hstep
    rcases h.execute_cases h.newParent_eq hx with ⟨_, rfl, hprocs⟩ |
      ⟨_, _, i, page, -, -, -, hi, rfl, hprocs⟩ | ⟨cmd, _, i, page, -, hi, rfl, hprocs⟩
    · -- no launch, or one that leaks its process
      refine ⟨S, h.congr honStack (hprocs ▸ h.toRepresents) ?_ ?_ ?_ ?_ fun _ _ => rfl⟩ <;>
        intros <;> rw [hprocs]
    · refine ⟨S, h.congr honStack (hprocs ▸ h.toRepresents.leak hi page) ?_ ?_ ?_ ?_
        fun _ _ => rfl⟩ <;> intros <;> rw [hprocs] <;> rfl
    · -- the new process takes the place of its caller, whose context is dropped
      refine ⟨_, h.created honStack (hprocs ▸ h.toRepresents.launch hi page cmd _ _) ?_
        (fun t ht => ?_) (fun p => ?_) (fun p => ?_)⟩ <;> rw [hprocs]
      · rfl
      · exact congrArg Task.pid (Function.update_of_ne ht _ _)
      · rw [Procs.shellFlag_block, Procs.pcbs_enter, Procs.shellFlag_fill, Procs.pcbs_take]
      · rw [Procs.greatEsp_block, Procs.pcbs_enter, Procs.greatEsp_fill, Procs.pcbs_take]
  | halt status stack =>
    obtain ⟨⟨r, k'⟩, hx, rfl⟩ := Option.map_eq_some_iff.mp hstep
    rcases h.toRepresents.halt_cases hshell hx with ⟨hroot, cmd, eip, page, rfl, hprocs⟩ |
      ⟨hroot, parent, l, hstack, hwalk, rfl, hprocs⟩
    · -- a root shell starts anew
      refine ⟨S, h.created honStack (hprocs ▸ h.toRepresents.respawn hroot page cmd) ?_
        (fun t ht => ?_) (fun p => ?_) (fun p => ?_)⟩ <;> rw [hprocs]
      · rfl
      · rfl
      · rw [Procs.pcbs_enter, Procs.shellFlag_fill]
        rfl
      · rw [Procs.pcbs_enter, Procs.greatEsp_fill]
        rfl
    · -- the parent waits in its own call of `execute`, without a context
      refine ⟨_, h.congr honStack
        (hprocs ▸ h.toRepresents.leave hstack hwalk (by simp [hstack])) ?_ (fun t ht => ?_)
        (fun p => ?_) (fun p => ?_) fun _ _ => rfl⟩ <;> rw [hprocs]
      · rfl
      · exact congrArg Task.pid (Function.update_of_ne ht _ _)
      · rfl
      · rfl
  | tick regs =>
    cases hstep
    exact ⟨S, h.tick honStack⟩
  | switchTerm t =>
    cases hstep
    refine ⟨S, h.congr honStack (h.toRepresents.switchTerm t) ?_ (fun t' _ => ?_) (fun _ => ?_)
      (fun _ => ?_) fun _ _ => rfl⟩ <;> rw [procs_switchTerm] <;> split_ifs
    all_goals try rfl
    by_cases ht : t' = t <;> simp [ht]

/-- A tick that does not stay picks the task of another terminal, which becomes the running one. -/
theorem tick_cases (h : Parked s S) {regs : Cpu} {resume : Resume}
    (hresume : (contextSwitch (s.context regs).esp s.kernel).1 = resume)
    (hstay : resume ≠ .stay) :
    ∃ f, f ≠ s.kernel.procs.currTerm ∧
      (contextSwitch (s.context regs).esp s.kernel).2.procs.currPid =
        (s.kernel.procs.terminal f).pid ∧
      (s.kernel.procs.interrupt (s.context regs).esp).resume (s.kernel.procs.terminal f).pid =
        resume := by
  have hstays : ¬ s.kernel.procs.Stays := by
    intro hstays
    rw [contextSwitch, if_pos hstays] at hresume
    exact hstay hresume.symm
  -- the head of the list before the tick is the terminal picked
  refine ⟨s.kernel.procs.taskList.head, fun heq => hstays (Or.inl ?_), ?_, ?_⟩
  · rw [heq]
    exact h.currPid.symm
  · rw [procs_contextSwitch, if_neg hstays]
    rfl
  · rw [contextSwitch, if_neg hstays] at hresume
    exact hresume

/-- `switch_to_prog` resumes a process with its latest context. -/
theorem resumed (h : Parked s S) {regs : Cpu} {mem : Memory} {esp : Word}
    (honStack : OnStack s { action := .tick regs, mem })
    (hresume : (contextSwitch (s.context regs).esp s.kernel).1 = .switchToProg esp) :
    ∃ x, Function.update s.saved s.kernel.procs.currPid (some (s.context regs))
        (contextSwitch (s.context regs).esp s.kernel).2.procs.currPid = some x ∧
      x.esp = esp ∧ Restores mem x := by
  obtain ⟨f, hf, hcurr, hesp⟩ := h.tick_cases hresume (by simp)
  have hother := h.waiting.own f hf
  cases hlast : s.lastEsp f with
  | none =>
    -- a terminal without a context is started, not resumed
    obtain ⟨eip, heip⟩ := h.waiting.resume_unstarted hf hlast (s.context regs).esp
    rw [heip] at hesp
    cases hesp
  | some last =>
    -- `great_esp` is the stack pointer of the latest context
    rw [h.waiting.resume_saved h.toLayout hf hlast] at hesp
    obtain ⟨x, hx, rfl⟩ := Option.map_eq_some_iff.mp hlast
    refine ⟨x, ?_, by simpa using hesp, ?_⟩
    · rw [hcurr, Function.update_of_ne hother, hx]
    · exact ((h.intact f hf x hx).congr (honStack.others _ hother)).restores

/-- `execute_root_shell` starts a process without a context. -/
theorem firstRun (h : Parked s S) {regs : Cpu} {eip : Word}
    (hresume : (contextSwitch (s.context regs).esp s.kernel).1 = .executeRootShell eip) :
    Function.update s.saved s.kernel.procs.currPid (some (s.context regs))
        (contextSwitch (s.context regs).esp s.kernel).2.procs.currPid = none ∧
      (s.kernel.procs.pcbs
        (contextSwitch (s.context regs).esp s.kernel).2.procs.currPid).shellFlag = true := by
  obtain ⟨f, hf, hcurr, hesp⟩ := h.tick_cases hresume (by simp)
  cases hlast : s.lastEsp f with
  | none =>
    rw [hcurr, Function.update_of_ne (h.waiting.own f hf)]
    exact ⟨Option.map_eq_none_iff.mp hlast, h.waiting.unstarted f hf hlast⟩
  | some last =>
    -- with a context it would be resumed
    rw [h.waiting.resume_saved h.toLayout hf hlast] at hesp
    cases hesp

/-- The step resumes a process with its latest context, or enters one that has none. -/
theorem roundTrip (hshell : ValidShell env.img) (h : Parked s S) (honStack : OnStack s e) :
    RoundTrip env s e := by
  obtain ⟨action, mem⟩ := e
  constructor
  case resumed =>
    rintro regs esp s' rfl hstep hresume
    cases hstep
    exact h.resumed honStack hresume
  case firstRun =>
    rintro regs eip s' rfl hstep hresume
    cases hstep
    exact h.firstRun hresume
  case entered =>
    intro s' hstep hne hnone
    cases action with
    | run =>
      cases hstep
      exact absurd rfl hne
    | execute command stack =>
      right; left
      obtain ⟨⟨r, k'⟩, hx, rfl⟩ := Option.map_eq_some_iff.mp hstep
      rcases h.execute_cases h.newParent_eq hx with ⟨_, rfl, hprocs⟩ |
        ⟨_, _, i, page, -, -, -, hi, rfl, hprocs⟩ | ⟨cmd, eip, i, page, -, hi, rfl, hprocs⟩
      · exact absurd (congrArg Procs.currPid hprocs) hne
      · exact absurd (congrArg Procs.currPid hprocs) hne
      · exact ⟨command, stack, eip, k', rfl, hx, rfl⟩
    | halt status stack =>
      right; right
      obtain ⟨⟨r, k'⟩, hx, rfl⟩ := Option.map_eq_some_iff.mp hstep
      rcases h.toRepresents.halt_cases hshell hx with ⟨hroot, cmd, eip, page, rfl, hprocs⟩ |
        ⟨hroot, parent, l, hstack, hwalk, rfl, hprocs⟩
      · exact absurd (congrArg Procs.currPid hprocs) hne
      · have hcurr : k'.procs.currPid = parent := by
          rw [hprocs]
          exact h.thePid s.kernel.procs.currTerm parent (by simp [hstack])
        obtain ⟨p, _, hstack', hp, -⟩ := h.toRepresents.stack_of_child hroot
        obtain rfl := (List.cons.inj (List.cons.inj (hstack.symm.trans hstack')).2).1
        exact ⟨status, stack, rfl, hp.trans (congrArg some hcurr.symm)⟩
    | tick regs =>
      left
      cases hstep
      cases hresume : (contextSwitch (s.context regs).esp s.kernel).1 with
      | stay =>
        -- the running process goes on
        refine absurd ?_ hne
        show (contextSwitch (s.context regs).esp s.kernel).2.procs.currPid = _
        rw [procs_contextSwitch]
        split_ifs with hstays
        · rfl
        · rw [contextSwitch, if_neg hstays, Procs.resume] at hresume
          split_ifs at hresume
      | executeRootShell eip => exact ⟨regs, eip, rfl, hresume⟩
      | switchToProg esp =>
        obtain ⟨x, hx, -⟩ := h.resumed honStack hresume
        cases hx.symm.trans hnone
    | switchTerm t =>
      cases hstep
      refine absurd ?_ hne
      show (switchTerm t s.kernel).procs.currPid = _
      rw [procs_switchTerm]
      split_ifs <;> rfl

end Parked

/-- From boot with zeros in the memory of the PCBs, along every run whose kernel stacks do not
overflow, `switch_to_prog` restores what the latest tick that interrupted the process has pushed,
and a process without a context is entered in another way. -/
theorem along_roundTrip {env : Env} {ram : BootRam} {r : ExecResult} {k₀ : Kernel} {mem : Memory}
    {es : List ContextEvent} (hshell : ValidShell env.img) (hentry : entry env ram = some (r, k₀))
    (hram : ∀ p, (ram.pcbs p).shellFlag = false)
    (honStack : Along (contextStep env) OnStack (.boot k₀ mem) es) :
    Along (contextStep env) (RoundTrip env) (.boot k₀ mem) es := by
  have hspec := entry_spec hshell hentry
  have hboot : Parked (.boot k₀ mem) bootForest :=
    ⟨hspec.exact.toRepresents, .boot hshell hentry fun p _ _ => hram p, fun _ _ _ h => by cases h⟩
  refine along_of_invariant (I := fun s => ∃ S, Parked s S) ?_ ?_ ⟨bootForest, hboot⟩ honStack
  · rintro s e s' ⟨S, hS⟩ honStack hstep
    exact hS.contextStep hshell honStack hstep
  · rintro s e ⟨S, hS⟩ honStack
    exact hS.roundTrip hshell honStack

/-! ## A run with a resumption -/

/-- A tick whose handler writes nothing but its pushes. -/
def ContextState.tickEvent (s : ContextState) (regs : Cpu) : ContextEvent :=
  { action := .tick regs, mem := (s.pushed regs).mem }

/-- The state after it. -/
def ContextState.afterTick (s : ContextState) (regs : Cpu) : ContextState :=
  { kernel := (contextSwitch (s.context regs).esp s.kernel).2
    mem := (s.pushed regs).mem
    saved := Function.update s.saved s.kernel.procs.currPid (some (s.context regs)) }

/-- There is room for the context of the interrupted code. -/
def Room (s : ContextState) (regs : Cpu) : Prop :=
  ∀ j < 4 * (s.context regs).words.length,
    InKernelStack s.kernel.procs.currPid ((s.context regs).esp + BitVec.ofNat 32 j)

instance (s : ContextState) (regs : Cpu) : Decidable (Room s regs) :=
  Nat.decidableBallLT _ _

theorem onStack_tickEvent {s : ContextState} {regs : Cpu} (hroom : Room s regs) :
    OnStack s (s.tickEvent regs) where
  others q hq a ha := by
    have houtside : ∀ j < 4 * (s.context regs).words.length,
        a ≠ (s.context regs).esp + BitVec.ofNat 32 j := by
      rintro j hj rfl
      exact hq (inKernelStack_unique ha (hroom j hj))
    rw [Context.length_words] at houtside
    set code : Cpu := { regs with mem := s.mem } with hcode
    set entered := code.interrupt s.kernel.procs.tss.ss0 s.kernel.procs.tss.esp0 kernelCs 0#32
    -- the registers, then the frame above them
    have hregs : (s.pushed regs).mem a = entered.mem a := by
      refine Cpu.mem_pushWords_of_outside fun j hj => houtside j ?_
      rw [List.length_map, show savedRegs.length = 9 from rfl] at hj
      omega
    have hbase : (s.context regs).esp + BitVec.ofNat 32 36 = entered.esp := by
      show (entered.pushAll savedRegs).esp + _ = _
      rw [Cpu.pushAll, Cpu.pushWords_eq]
      exact BitVec.sub_add_cancel _ _
    have hframe : entered.mem a =
        (code.handlerStack s.kernel.procs.tss.ss0 s.kernel.procs.tss.esp0).mem a := by
      refine Cpu.mem_pushWords_of_outside fun j hj => ?_
      have hj' := houtside (36 + j) (by
        have hlen : (s.context regs).cpu.frame.length = code.frame.length := rfl
        omega)
      rw [BitVec.ofNat_add, ← BitVec.add_assoc, hbase] at hj'
      exact hj'
    show (s.pushed regs).mem a = s.mem a
    rw [hregs, hframe, Cpu.handlerStack]
    split_ifs <;> rfl
  room regs' h := by
    cases h
    exact hroom
  kept regs' h := by
    cases h
    exact .refl _ _ _

/-- Registers of a program in user mode. -/
def sampleRegs : Cpu :=
  { zeroCpu with gpr := fun _ => 5#32, cs := 0x23#16, ss := 0x2B#16, esp := 0x83FFFFC#32 }

/-- Four ticks: the shell of terminal 0 is interrupted, that of terminal 1 runs for the first time,
and the first one is resumed. -/
theorem along_roundTrip_sample :
    ∃ r k₀, entry sampleEnv zeroRam = some (r, k₀) ∧
      let s₁ := ContextState.boot (switchTerm 1 k₀) fun _ => 0#8
      let s₂ := s₁.afterTick sampleRegs
      let s₃ := s₂.afterTick sampleRegs
      let s₄ := s₃.afterTick sampleRegs
      (∃ esp, (contextSwitch (s₄.context sampleRegs).esp s₄.kernel).1 = .switchToProg esp) ∧
      Along (contextStep sampleEnv) (RoundTrip sampleEnv) (.boot k₀ fun _ => 0#8)
        [{ action := .switchTerm 1, mem := fun _ => 0#8 }, s₁.tickEvent sampleRegs,
          s₂.tickEvent sampleRegs, s₃.tickEvent sampleRegs, s₄.tickEvent sampleRegs] := by
  have hrun : (entry sampleEnv zeroRam).any fun x =>
      let s₁ := ContextState.boot (switchTerm 1 x.2) fun _ => 0#8
      let s₂ := s₁.afterTick sampleRegs
      let s₃ := s₂.afterTick sampleRegs
      let s₄ := s₃.afterTick sampleRegs
      decide (Room s₁ sampleRegs ∧ Room s₂ sampleRegs ∧ Room s₃ sampleRegs ∧ Room s₄ sampleRegs ∧
        (contextSwitch (s₄.context sampleRegs).esp s₄.kernel).1 = .switchToProg 0x7FFFC4#32) := by
    decide +kernel
  simp only [Option.any_eq_true, decide_eq_true_eq] at hrun
  obtain ⟨⟨r, k₀⟩, hentry, h₁, h₂, h₃, h₄, hresume⟩ := hrun
  refine ⟨r, k₀, hentry, ⟨_, hresume⟩,
    along_roundTrip validShell_sampleImage hentry (fun _ => rfl) ?_⟩
  refine ⟨⟨fun _ _ _ _ => rfl, fun _ h => (by cases h), fun _ h => (by cases h)⟩, ?_⟩
  -- each tick finds room for its context
  rintro s' ⟨⟩
  refine ⟨onStack_tickEvent h₁, ?_⟩
  rintro s' ⟨⟩
  refine ⟨onStack_tickEvent h₂, ?_⟩
  rintro s' ⟨⟩
  refine ⟨onStack_tickEvent h₃, ?_⟩
  rintro s' ⟨⟩
  exact ⟨onStack_tickEvent h₄, fun _ _ => trivial⟩

end Ece391
