import Ece391Os.Lib.Transition
import Ece391Os.Process.Boot
import Mathlib.Data.Fin.VecNotation

/-!
# Fairness of the scheduler

The timer walks a circular list of three tasks, of which only the active ones run.

* `KeepsTasks`: launches and exits leave the list and the activity of the tasks alone.
* `Scheduled` is the invariant: the list is a ring, and the terminal that runs is active.
* `RoundRobin` is the promise in a state: the head of the list runs after a tick if it is active,
  and three ticks in a row have each terminal at the head once.
* `round_robin`: it holds in every state of a run, and a terminal nobody has switched to never runs.
-/

namespace Ece391

open Transition

/-- The terminal `t` runs its process. -/
def Runs (ps : Procs) (t : TermId) : Prop := ps.currTerm = t ∧ ps.currPid = (ps.terminal t).pid

/-- The event is a tick of the timer. -/
def ProcessEvent.IsTick : ProcessEvent → Prop
  | .tick _ => True
  | _ => False

/-- A tick in `k` and events up to the next tick, in `k'`. -/
def NextTick (env : Env) (k k' : Kernel) : Prop :=
  ∃ esp es, (∀ e ∈ es, ¬ ProcessEvent.IsTick e) ∧
    exec (processStep env) k (.tick esp :: es) = some k'

/-- What the scheduler promises in a state. -/
structure RoundRobin (env : Env) (k : Kernel) : Prop where
  active : ∀ esp, (k.procs.terminal k.procs.taskList.head).active = true →
    Runs (contextSwitch esp k).2.procs k.procs.taskList.head
  inactive : ∀ esp, (k.procs.terminal k.procs.taskList.head).active = false →
    (contextSwitch esp k).2.procs.currPid = k.procs.currPid ∧
      (contextSwitch esp k).2.procs.currTerm = k.procs.currTerm
  /-- Of three ticks in a row, exactly one has a given terminal at the head, and a terminal that
  stays active runs after it. -/
  three : ∀ ks : Fin 3 → Kernel, ks 0 = k → NextTick env (ks 0) (ks 1) →
    NextTick env (ks 1) (ks 2) →
    ∀ t, (∀ i, ((ks i).procs.terminal t).active = true) →
      (∃! i, (ks i).procs.taskList.head = t) ∧
        ∀ i esp, (ks i).procs.taskList.head = t → Runs (contextSwitch esp (ks i)).2.procs t

/-! ## What launches and exits leave alone -/

/-- The list, the terminal that runs, and the links and the activity of the tasks are the same. -/
structure KeepsTasks (ps ps' : Procs) : Prop where
  taskList : ps'.taskList = ps.taskList
  currTerm : ps'.currTerm = ps.currTerm
  next : ∀ t, (ps'.terminal t).next = (ps.terminal t).next
  active : ∀ t, (ps'.terminal t).active = (ps.terminal t).active

namespace KeepsTasks

variable {ps ps' ps'' : Procs} {env : Env} {command stack : Buffer} {k k' : Kernel}
  {r : ExecResult} {status : Byte} {hr : HaltResult}

theorem of_eq (hlist : ps'.taskList = ps.taskList) (hterm : ps'.currTerm = ps.currTerm)
    (hterminal : ps'.terminal = ps.terminal) : KeepsTasks ps ps' :=
  ⟨hlist, hterm, fun t => by rw [hterminal], fun t => by rw [hterminal]⟩

theorem trans (h : KeepsTasks ps ps') (h' : KeepsTasks ps' ps'') : KeepsTasks ps ps'' :=
  ⟨h'.taskList.trans h.taskList, h'.currTerm.trans h.currTerm,
    fun t => (h'.next t).trans (h.next t), fun t => (h'.active t).trans (h.active t)⟩

/-- The pid of a task may change. -/
theorem of_pid {t : TermId} {p : Pid} (hlist : ps'.taskList = ps.taskList)
    (hterm : ps'.currTerm = ps.currTerm)
    (hterminal : ps'.terminal = Function.update ps.terminal t { ps.terminal t with pid := p }) :
    KeepsTasks ps ps' := by
  refine ⟨hlist, hterm, fun t' => ?_, fun t' => ?_⟩ <;> rw [hterminal] <;>
    by_cases ht : t' = t <;> simp [ht]

theorem execute (h : execute env command stack k = some (r, k')) :
    KeepsTasks k.procs k'.procs := by
  cases execute_cases h with
  | early hcmd hfind hk' =>
    rw [procs_exitEarly hk']
    exact of_eq rfl rfl rfl
  | maximumProcesses hcmd hfind hbusy hk' =>
    rw [Kernel.procs_enableIrq, procs_puts hk']
    exact of_eq rfl rfl rfl
  | loadFail => exact of_eq rfl rfl rfl
  | rootShellReady => exact of_eq rfl rfl rfl
  | root => exact of_eq rfl rfl rfl
  | child => exact of_pid rfl rfl rfl

theorem haltChild (h : haltChild status k = some (hr, k')) : KeepsTasks k.procs k'.procs := by
  obtain ⟨parent, -, -, rfl⟩ := haltChild_eq_some.mp h
  exact of_pid rfl rfl rfl

theorem halt (h : halt env status stack k = some (hr, k')) : KeepsTasks k.procs k'.procs := by
  by_cases hroot : IsRootPid k.procs.currPid
  · obtain ⟨con, k₁, result, -, hx, hres⟩ := halt_root hroot h
    have hstart : KeepsTasks k.procs k.procs.decActive.freeRoot := of_eq rfl rfl rfl
    have hcall : KeepsTasks k.procs k₁.procs := hstart.trans (execute hx)
    rcases hres with ⟨eip, -, -, rfl⟩ | ⟨-, hres⟩
    · exact hcall
    · exact hcall.trans (haltChild hres)
  · rw [halt_child hroot] at h
    have hstart : KeepsTasks k.procs k.procs.decActive := of_eq rfl rfl rfl
    exact hstart.trans (haltChild h)

/-- Only ticks and switches touch the list and the activity. -/
theorem processStep_cases {e : ProcessEvent} (h : processStep env k e = some k') :
    KeepsTasks k.procs k'.procs ∨ (∃ esp, e = .tick esp ∧ k' = (contextSwitch esp k).2) ∨
      ∃ t, e = .switchTerm t ∧ k' = switchTerm t k := by
  cases e with
  | execute command stack =>
    obtain ⟨⟨r, _⟩, hx, rfl⟩ := Option.map_eq_some_iff.mp h
    exact Or.inl (execute hx)
  | halt status stack =>
    obtain ⟨⟨r, _⟩, hx, rfl⟩ := Option.map_eq_some_iff.mp h
    exact Or.inl (halt hx)
  | tick esp => exact Or.inr (Or.inl ⟨esp, rfl, (Option.some.inj h).symm⟩)
  | switchTerm t => exact Or.inr (Or.inr ⟨t, rfl, (Option.some.inj h).symm⟩)

end KeepsTasks

/-! ## The invariant -/

/-- The list is a ring of the three tasks, and the terminal that runs is active. -/
structure Scheduled (k : Kernel) : Prop where
  tree : ∃ S, Represents k.procs S
  next : ∀ t, (k.procs.terminal t).next = t + 1
  active : (k.procs.terminal k.procs.currTerm).active = true

namespace Scheduled

variable {env : Env} {k k' : Kernel} {e : ProcessEvent}

/-- After a tick with an active terminal at the head, it runs. -/
theorem tick_active (h : Scheduled k) (esp : Word)
    (hactive : (k.procs.terminal k.procs.taskList.head).active = true) :
    Runs (contextSwitch esp k).2.procs k.procs.taskList.head := by
  obtain ⟨S, hS⟩ := h.tree
  rw [procs_contextSwitch]
  split_ifs with hstays
  · -- the head is the terminal that runs, by its process
    have hpid := hstays.resolve_right (by simp [hactive])
    have hhead : k.procs.taskList.head = k.procs.currTerm :=
      hS.pid_injective (hpid.trans hS.currPid)
    exact ⟨hhead.symm, hpid.symm⟩
  · exact ⟨hS.term _, rfl⟩

/-- After a tick with an inactive terminal at the head, the same process runs. -/
theorem tick_inactive (esp : Word)
    (hinactive : (k.procs.terminal k.procs.taskList.head).active = false) :
    (contextSwitch esp k).2.procs.currPid = k.procs.currPid ∧
      (contextSwitch esp k).2.procs.currTerm = k.procs.currTerm := by
  have hstays : k.procs.Stays := Or.inr hinactive
  rw [procs_contextSwitch, if_pos hstays]
  exact ⟨rfl, rfl⟩

/-- A tick turns the list by one task, and changes no task. -/
theorem tick_list (h : Scheduled k) (esp : Word) :
    (contextSwitch esp k).2.procs.taskList.head = k.procs.taskList.head + 1 ∧
      (contextSwitch esp k).2.procs.terminal = k.procs.terminal := by
  rw [procs_contextSwitch]
  split_ifs <;> exact ⟨h.next _, rfl⟩

theorem tick (h : Scheduled k) (esp : Word) : Scheduled (contextSwitch esp k).2 := by
  obtain ⟨S, hS⟩ := h.tree
  obtain ⟨-, hterminal⟩ := h.tick_list esp
  refine ⟨⟨S, hS.contextSwitch esp⟩, fun t => by rw [hterminal]; exact h.next t, ?_⟩
  rw [hterminal]
  cases hactive : (k.procs.terminal k.procs.taskList.head).active with
  | true => rwa [(h.tick_active esp hactive).1]
  | false =>
    rw [(tick_inactive esp hactive).2]
    exact h.active

theorem keepsTasks (h : Scheduled k) (hk : KeepsTasks k.procs k'.procs)
    (htree : ∃ S, Represents k'.procs S) : Scheduled k' :=
  ⟨htree, fun t => (hk.next t).trans (h.next t), by rw [hk.currTerm, hk.active, h.active]⟩

theorem switchTerm (h : Scheduled k) (t : TermId) : Scheduled (switchTerm t k) := by
  obtain ⟨S, hS⟩ := h.tree
  refine ⟨⟨S, hS.switchTerm t⟩, fun t' => ?_, ?_⟩
  · rw [procs_switchTerm]
    split_ifs
    · exact h.next t'
    · by_cases ht : t' = t <;> simp [ht, h.next]
  · rw [procs_switchTerm]
    split_ifs
    · exact h.active
    · by_cases ht : k.procs.currTerm = t <;> simp [ht, h.active]

theorem processStep (hshell : ValidShell env.img) (h : Scheduled k)
    (hstep : processStep env k e = some k') : Scheduled k' := by
  obtain ⟨S, hS⟩ := h.tree
  obtain hkeeps | ⟨esp, rfl, rfl⟩ | ⟨t, rfl, rfl⟩ := KeepsTasks.processStep_cases hstep
  · exact h.keepsTasks hkeeps (hS.processStep hshell hstep)
  · exact h.tick esp
  · exact h.switchTerm t

/-- Events that are no ticks do not turn the list. -/
theorem head_of_not_tick {es : List ProcessEvent} (hes : ∀ e ∈ es, ¬ ProcessEvent.IsTick e)
    (hrun : exec (Ece391.processStep env) k es = some k') :
    k'.procs.taskList.head = k.procs.taskList.head := by
  refine exec_invariant (I := fun k₁ => k₁.procs.taskList.head = k.procs.taskList.head)
    (P := fun _ e => ¬ ProcessEvent.IsTick e) ?_ rfl (along_of_forall hes k) hrun
  intro k₁ e k₂ h he hstep
  -- what changes no task, or only the activity of one, leaves the head
  rw [← h]
  obtain hkeeps | ⟨esp, rfl, -⟩ | ⟨t, -, rfl⟩ := KeepsTasks.processStep_cases hstep
  · rw [hkeeps.taskList]
  · exact absurd trivial he
  · -- a switch activates a task where it stands in the list
    rw [procs_switchTerm]
    split_ifs <;> rfl

theorem run (hshell : ValidShell env.img) (h : Scheduled k) {es : List ProcessEvent}
    (hrun : exec (Ece391.processStep env) k es = some k') : Scheduled k' :=
  exec_invariant (fun _ _ _ hk _ hstep => hk.processStep hshell hstep) h
    (along_of_forall (P := fun _ => True) (fun _ _ => trivial) k) hrun

/-- From one tick to the next the list turns by one task. -/
theorem nextTick (hshell : ValidShell env.img) (h : Scheduled k) (hnext : NextTick env k k') :
    Scheduled k' ∧ k'.procs.taskList.head = k.procs.taskList.head + 1 := by
  obtain ⟨esp, es, hes, hrun⟩ := hnext
  refine ⟨h.run hshell hrun, ?_⟩
  obtain ⟨k₁, hk₁, hrest⟩ := exec_cons_eq_some.mp hrun
  cases hk₁
  exact (head_of_not_tick hes hrest).trans (h.tick_list esp).1

theorem roundRobin (hshell : ValidShell env.img) (h : Scheduled k) : RoundRobin env k where
  active := h.tick_active
  inactive := tick_inactive
  three := by
    rintro ks rfl h01 h12 t hactive
    obtain ⟨h1, hhead1⟩ := h.nextTick hshell h01
    obtain ⟨h2, hhead2⟩ := h1.nextTick hshell h12
    -- each tick turns the list by one
    have hks : ∀ i, Scheduled (ks i) ∧
        (ks i).procs.taskList.head = (ks 0).procs.taskList.head + i := by
      rw [Fin.forall_fin_succ, Fin.forall_fin_two]
      have hring : ∀ head : TermId, head = head + 0 ∧ head + 1 + 1 = head + 2 := by decide
      refine ⟨⟨h, (hring _).1⟩, ⟨h1, hhead1⟩, h2, hhead2.trans ?_⟩
      rw [hhead1]
      exact (hring _).2
    -- so the three heads are the three terminals
    have honce : ∀ head t : TermId, ∃ i : Fin 3, head + i = t ∧ ∀ j, head + j = t → j = i := by
      decide
    obtain ⟨i, hi, hunique⟩ := honce (ks 0).procs.taskList.head t
    refine ⟨⟨i, (hks i).2.trans hi, fun j hj => hunique j ((hks j).2.symm.trans hj)⟩,
      fun i esp hi => ?_⟩
    have hruns := (hks i).1.tick_active esp (by rw [hi]; exact hactive i)
    rwa [hi] at hruns

/-- A terminal that is not active and that nobody switches to does not run. -/
theorem never_runs (hshell : ValidShell env.img) (h : Scheduled k) {t : TermId}
    (hinactive : (k.procs.terminal t).active = false) {es : List ProcessEvent}
    (hes : ProcessEvent.switchTerm t ∉ es)
    (hrun : exec (Ece391.processStep env) k es = some k') : ¬ Runs k'.procs t := by
  -- the terminal stays inactive, and the one that runs is active
  have hstep : ∀ k₁ e k₂, Scheduled k₁ ∧ (k₁.procs.terminal t).active = false →
      e ≠ ProcessEvent.switchTerm t → Ece391.processStep env k₁ e = some k₂ →
      Scheduled k₂ ∧ (k₂.procs.terminal t).active = false := by
    rintro k₁ e k₂ ⟨hk₁, hoff⟩ he hstep
    refine ⟨hk₁.processStep hshell hstep, ?_⟩
    obtain hkeeps | ⟨esp, -, rfl⟩ | ⟨t', rfl, rfl⟩ := KeepsTasks.processStep_cases hstep
    · exact (hkeeps.active t).trans hoff
    · rwa [(hk₁.tick_list esp).2]
    · rw [procs_switchTerm]
      split_ifs
      · exact hoff
      · have ht : t ≠ t' := fun heq => he (by rw [heq])
        simpa [ht] using hoff
  obtain ⟨hk', hoff⟩ := exec_invariant hstep ⟨h, hinactive⟩
    (along_of_forall (P := fun e => e ≠ ProcessEvent.switchTerm t)
      (fun e he heq => hes (heq ▸ he)) k) hrun
  rintro ⟨hterm, -⟩
  rw [← hterm, hk'.active] at hoff
  cases hoff

end Scheduled

/-- From boot, the scheduler is fair in every state of a run, and a terminal other than 0 runs only
after a switch to it. -/
theorem round_robin {env : Env} {ram : BootRam} {r : ExecResult} {k₀ k : Kernel}
    {es : List ProcessEvent} (hshell : ValidShell env.img) (hentry : entry env ram = some (r, k₀))
    (hrun : exec (processStep env) k₀ es = some k) :
    RoundRobin env k ∧ ∀ t, t ≠ 0 → ProcessEvent.switchTerm t ∉ es → ¬ Runs k.procs t := by
  have hspec := entry_spec hshell hentry
  have hboot : Scheduled k₀ :=
    ⟨⟨bootForest, hspec.exact.toRepresents⟩, fun t => by rw [hspec.terminal]; rfl,
      by rw [hspec.terminal, hspec.currTerm]; rfl⟩
  refine ⟨(hboot.run hshell hrun).roundRobin hshell, fun t ht hes => ?_⟩
  refine hboot.never_runs hshell ?_ hes hrun
  rw [hspec.terminal]
  exact beq_false_of_ne ht

/-- A run in which terminal 1 is switched to and launches a program. -/
theorem round_robin_sample :
    ∃ r k₀ k, entry sampleEnv zeroRam = some (r, k₀) ∧
      exec (processStep sampleEnv) k₀ [.switchTerm 1, .tick 0x1000#32, .tick 0x1000#32,
        .execute (commandLine "shell") (fun _ => 0#8), .tick 0x2000#32] = some k ∧
      RoundRobin sampleEnv k ∧
      ∀ t, t ≠ 0 → ProcessEvent.switchTerm t ∉ [ProcessEvent.switchTerm 1, .tick 0x1000#32,
        .tick 0x1000#32, .execute (commandLine "shell") (fun _ => 0#8), .tick 0x2000#32] →
        ¬ Runs k.procs t := by
  have hrun : ((entry sampleEnv zeroRam).bind fun x => exec (processStep sampleEnv) x.2
      [.switchTerm 1, .tick 0x1000#32, .tick 0x1000#32,
        .execute (commandLine "shell") (fun _ => 0#8), .tick 0x2000#32]).isSome := by
    decide +kernel
  obtain ⟨k, hk⟩ := Option.isSome_iff_exists.mp hrun
  obtain ⟨⟨r, k₀⟩, hentry, hk⟩ := Option.bind_eq_some_iff.mp hk
  obtain ⟨hfair, hnever⟩ := round_robin validShell_sampleImage hentry hk
  exact ⟨r, k₀, k, hentry, hk, hfair, hnever⟩

end Ece391
