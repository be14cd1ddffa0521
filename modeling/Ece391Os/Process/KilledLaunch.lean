import Ece391Os.Process.Calls
import Ece391Os.Process.LaunchSteps
import Ece391Os.Terminal.CtrlC

/-!
# Ctrl+C in the middle of a launch

Between two statements of a launch, Ctrl+C on the terminal that is on screen kills the process that
`curr_pid` names, which is the parent at first and the new process later on.

* `launchStep` is the step of the processes with launches that are interrupted after `n` statements,
  and with a record of the calls that have written `the_esp`, `the_ss` and `shell_esp_array`.
* `NotHalfKilled`: `halt` goes on in the call that has launched the process it kills, and leaves the
  tables of a launch that was completed first, or that had not begun.
* `InterruptsSafely` is where that is so: nothing but the page directory has been written yet, or
  the process that launches is a root shell and still the current one, or the stack pointer is
  saved.
* `along_notHalfKilled_iff`: in every run from boot.
-/

namespace Ece391

open Transition

/-! ## Runs with interrupted launches -/

/-- The processes, with the calls that have written a PCB's `the_esp` and `the_ss` last. -/
structure LaunchState extends CallState where
  espWriter : Pid → Option ℕ
  ssWriter : Pid → Option ℕ

/-- A step of the processes, or a launch with Ctrl+C after the first `n` of its statements. -/
inductive LaunchEvent
  | process (e : ProcessEvent)
  | interrupted (command stack : Buffer) (n : ℕ)

/-- Ctrl+C. -/
def ctrlC (env : Env) (k : Kernel) : Option Kernel :=
  (kbd env 46#8 { k with kbd := { k.kbd with ctrlReady := true } }).map Prod.snd

namespace LaunchState

/-- After `entry`, no call has written anything. -/
def boot (k : Kernel) : LaunchState :=
  { toCallState := .start k, espWriter := fun _ => none, ssWriter := fun _ => none }

/-- A call that has launched a process has written the PCB of its parent. -/
def recorded (s : LaunchState) (calls : CallState) : LaunchState :=
  let wrote (p : Pid) : Prop :=
    calls.count ≠ s.count ∧ calls.kernel.procs.parent calls.kernel.procs.currPid = some p
  { toCallState := calls
    espWriter := fun p => if wrote p then some s.count else s.espWriter p
    ssWriter := fun p => if wrote p then some s.count else s.ssWriter p }

/-- The record after the statements `done` of a launch, which have led to the state `kernel`. -/
def cut (s : LaunchState) (v : LaunchVars) (done : List LaunchStmt) (kernel : Kernel) :
    LaunchState :=
  let call : Launch := { id := s.count, parent := s.kernel.procs.currPid, esp := v.jumpEsp }
  let parent := kernel.procs.parent v.i
  let slot := parent.map fun parent => (kernel.procs.pcbs parent).thePid
  { kernel
    count := if .currPid ∈ done then s.count + 1 else s.count
    launch := if .currPid ∈ done then Function.update s.launch v.i (some call) else s.launch
    -- `shell_esp_array` is indexed by the pid in the PCB of the parent
    writer := fun p => if .shellEsp ∈ done ∧ slot = some p then some s.count else s.writer p
    returned := s.returned
    espWriter := fun p => if .theEsp ∈ done ∧ parent = some p then some s.count else s.espWriter p
    ssWriter := fun p => if .theSs ∈ done ∧ parent = some p then some s.count else s.ssWriter p }

/-- `halt` has gone on with the frame of the process that runs now. -/
def killed (s : LaunchState) (kernel : Kernel) : LaunchState :=
  { s with kernel, returned := (s.writer kernel.procs.currPid, 0#8) :: s.returned }

end LaunchState

/-- One step. When Ctrl+C finds a root shell, the launch goes on behind the message. -/
def launchStep (env : Env) (s : LaunchState) : LaunchEvent → Option LaunchState
  | .process e => (callStep env s.toCallState e).map s.recorded
  | .interrupted command stack n => do
    let v ← launchVars env command stack s.kernel
    -- only the terminal on screen gets the key
    if s.kernel.con.termOnScreen ≠ s.kernel.procs.currTerm then none
    else do
      let k ← exec (Kernel.launchStmt v) s.kernel ((launchProgram v).take n)
      let k' ← ctrlC env k
      if IsRootPid k.procs.currPid then do
        let whole ← exec (Kernel.launchStmt v) k' ((launchProgram v).drop n)
        some (s.cut v (launchProgram v) whole)
      else some ((s.cut v ((launchProgram v).take n) k).killed k')

/-! ## The property -/

/-- The process table, the counters, `curr_pid` and the pids of the terminals. -/
structure SameTables (ps ps' : Procs) : Prop where
  pcbStatusArray : ps.pcbStatusArray = ps'.pcbStatusArray
  activeProcNum : ps.activeProcNum = ps'.activeProcNum
  activeRootShell : ps.activeRootShell = ps'.activeRootShell
  currPid : ps.currPid = ps'.currPid
  pid : ∀ t, (ps.terminal t).pid = (ps'.terminal t).pid

/-- The tables are what Ctrl+C makes of those of `k`. -/
def AsKilledIn (env : Env) (k k' : Kernel) : Prop :=
  ∃ killed, ctrlC env k = some killed ∧ SameTables k'.procs killed.procs

/-- From the state `s`, `halt` has gone on in the call that has launched the process it has killed:
the frame it goes on with, and the stack its parent gets back, are those of this call. -/
def ResumesLauncher (s : LaunchState) (k' : Kernel) : Prop :=
  ∃ call, s.launch s.kernel.procs.currPid = some call ∧
    s.kernel.procs.parent s.kernel.procs.currPid = some call.parent ∧
    k'.procs.currPid = call.parent ∧
    s.kernel.procs.shellEspArray call.parent = call.esp ∧
    s.writer call.parent = some call.id ∧
    s.espWriter call.parent = some call.id ∧
    s.ssWriter call.parent = some call.id ∧
    ReturnsFrom s.kernel.procs.shellEspArray call 0#8

/-- Ctrl+C in the middle of a launch kills no process, or kills one as if the launch had been
completed or had not begun. -/
def NotHalfKilled (env : Env) (s : LaunchState) : LaunchEvent → Prop
  | .process _ => True
  | .interrupted command stack n => ∀ v, launchVars env command stack s.kernel = some v →
    s.kernel.con.termOnScreen = s.kernel.procs.currTerm →
    ∃ k, exec (Kernel.launchStmt v) s.kernel ((launchProgram v).take n) = some k ∧
      (IsRootPid k.procs.currPid → ∀ k', ctrlC env k = some k' → k'.procs = k.procs) ∧
      (¬ IsRootPid k.procs.currPid → ∃ k', ctrlC env k = some k' ∧
        ResumesLauncher (s.cut v ((launchProgram v).take n) k) k' ∧
        ((∃ whole, exec (Kernel.launchStmt v) s.kernel (launchProgram v) = some whole ∧
          AsKilledIn env whole k') ∨ AsKilledIn env s.kernel k'))

/-- The interrupt is early enough or late enough. -/
def InterruptsSafely (env : Env) (s : LaunchState) : LaunchEvent → Prop
  | .process _ => True
  | .interrupted command stack n => ∀ v, launchVars env command stack s.kernel = some v →
    s.kernel.con.termOnScreen = s.kernel.procs.currTerm →
    .pcbStatus ∉ (launchProgram v).take n ∨
      (IsRootPid s.kernel.procs.currPid ∧ .currPid ∉ (launchProgram v).take n) ∨
      .shellEsp ∈ (launchProgram v).take n

/-! ## Ctrl+C -/

section

variable {k k' : Kernel} {q : Pid}

theorem procs_ctrlC_root {env : Env} (hroot : IsRootPid k.procs.currPid)
    (h : ctrlC env k = some k') :
    k'.procs = k.procs := by
  obtain ⟨⟨r, k'⟩, hkbd, rfl⟩ := Option.map_eq_some_iff.mp h
  exact procs_kbd_ctrlC_root (k := { k with kbd := { k.kbd with ctrlReady := true } }) rfl hroot
    hkbd

/-- A program on the terminal on screen is left for its parent, whatever the rest of the state
is. -/
theorem ctrlC_child (env : Env) (hroot : ¬ IsRootPid k.procs.currPid)
    (hterm : k.con.termOnScreen = k.procs.currTerm)
    (hparent : k.procs.parent k.procs.currPid = some q) :
    ∃ k', ctrlC env k = some k' ∧ k'.procs = k.procs.decActive.leave q := by
  obtain ⟨r, k', hkbd, hprocs⟩ : ∃ r k', kbd env 46#8
      { k with kbd := { k.kbd with ctrlReady := true } } = some (r, k') ∧
        k'.procs = k.procs.decActive.leave q := kbd_ctrlC_child rfl hroot hterm hparent
  exact ⟨k', by rw [ctrlC, hkbd]; rfl, hprocs⟩

end

/-! ## The points of a launch -/

/-- A list is cut behind `a` if it is cut behind a later element. -/
theorem mem_take_of_mem_take {α : Type*} {l₁ l₂ : List α} {a b : α} {n : ℕ} (hb : b ∉ l₁)
    (h : b ∈ (l₁ ++ a :: l₂).take n) : a ∈ (l₁ ++ a :: l₂).take n := by
  rcases Nat.lt_or_ge l₁.length n with hlt | hge
  · rw [List.take_append, ← Nat.sub_add_cancel (Nat.sub_pos_of_lt hlt), List.take_succ_cons]
    simp
  · rw [List.take_append_of_le_length hge] at h
    exact absurd (List.mem_of_mem_take h) hb

section

variable {v : LaunchVars} {ps ps' : Procs} {n : ℕ}

theorem pcbStatus_mem_of_currPid_mem (h : .currPid ∈ (launchProgram v).take n) :
    .pcbStatus ∈ (launchProgram v).take n :=
  mem_take_of_mem_take (by simp [beforeStatus]) h

/-- Behind the last statement the launch is complete. -/
theorem take_eq_of_shellEsp_mem (h : .shellEsp ∈ (launchProgram v).take n) :
    (launchProgram v).take n = launchProgram v := by
  have hsplit : launchProgram v =
      (beforeStatus ++ .pcbStatus :: (beforeCurrPid v ++ .currPid :: beforeShellEsp)) ++
        [.shellEsp] := by
    simp only [launchProgram, List.append_assoc, List.cons_append]
  rw [hsplit] at h ⊢
  rcases Nat.lt_or_ge (beforeStatus ++ .pcbStatus ::
    (beforeCurrPid v ++ .currPid :: beforeShellEsp)).length n with hlt | hge
  · -- the cut is behind all other statements
    apply List.take_of_length_le
    rw [List.length_append]
    exact hlt
  · rw [List.take_append_of_le_length hge] at h
    exact absurd (List.mem_of_mem_take h)
      (by simp [beforeStatus, beforeCurrPid, beforeShellEsp, fillStmts])

/-- The terminal of a launch stays the current one, and on screen. -/
theorem onScreen_exec {k k' : Kernel} {done : List LaunchStmt}
    (hterm : k.con.termOnScreen = k.procs.currTerm)
    (h : exec (Kernel.launchStmt v) k done = some k') :
    k'.con.termOnScreen = k'.procs.currTerm := by
  rw [termOnScreen_exec h, hterm]
  exact (LaunchKeeps.of_exec (exec_run h)).currTerm.symm

/-- Before the pid is taken, only the page directory has been switched. -/
theorem procs_of_pcbStatus_not_mem (hno : .pcbStatus ∉ (launchProgram v).take n)
    (h : exec (LaunchStmt.run v) ps ((launchProgram v).take n) = some ps') :
    ∃ c, ps' = { ps with cr3 := c } := by
  match n, h with
  | 0, h => exact ⟨ps.cr3, (Option.some.inj h).symm⟩
  | 1, h => exact ⟨ps.cr3, (Option.some.inj h).symm⟩
  | 2, h => exact ⟨v.i, (Option.some.inj h).symm⟩
  | n + 3, h => exact absurd (by simp [launchProgram, beforeStatus]) hno

end

/-! ## The invariant -/

/-- The calls are nested, all of them have been counted, and a call that has written an entry of
`shell_esp_array` has written the stack into the PCB as well. -/
structure Recorded (s : LaunchState) (S : Forest) : Prop extends Nested s.toCallState S where
  writer_lt : ∀ p id, s.writer p = some id → id < s.count
  espWriter : s.espWriter = s.writer
  ssWriter : s.ssWriter = s.writer

namespace Recorded

variable {env : Env} {s s' : LaunchState} {S : Forest} {k k' : Kernel} {calls : CallState}
  {v : LaunchVars} {command stack : Buffer} {n : ℕ}

/-- A step that is no launch. -/
theorem keep {S' : Forest} (h : Recorded s S) (hcalls : Nested calls S')
    (hcount : calls.count = s.count) (hwriter : calls.writer = s.writer) :
    Recorded (s.recorded calls) S' where
  toNested := hcalls
  writer_lt p id hid := by
    rw [show (s.recorded calls).count = s.count from hcount]
    exact h.writer_lt p id (hwriter ▸ hid)
  espWriter := by
    show (fun p => if calls.count ≠ s.count ∧ _ then _ else s.espWriter p) = calls.writer
    simp [hcount, hwriter, h.espWriter]
  ssWriter := by
    show (fun p => if calls.count ≠ s.count ∧ _ then _ else s.ssWriter p) = calls.writer
    simp [hcount, hwriter, h.ssWriter]

/-- A launch by the running process. -/
theorem launch (h : Recorded s S) {i : Pid} (hi : s.kernel.procs.pcbStatusArray i = 0#8)
    (page : Buffer) (cmd : Command)
    (hprocs : k'.procs = (((s.kernel.procs.take i page).fill i cmd).enter i).block
      s.kernel.procs.currPid i (s.kernel.procs.tss.esp0 - env.executeFrame)
      (s.kernel.procs.tss.esp0 - env.executeFrame - env.jumpFrame)) :
    ∃ S', Recorded (s.recorded (s.launched env k')) S' := by
  obtain ⟨S', hS'⟩ := h.toNested.launch hi page cmd hprocs
  have hparent : k'.procs.parent k'.procs.currPid = some s.kernel.procs.currPid := by
    have hcurr : k'.procs.currPid = i := by
      rw [hprocs]
      rfl
    rw [hcurr, hprocs, h.toRepresents.parent_launch hi, if_pos rfl]
  have heq := h.toNested.launched_eq hi page cmd hprocs
  -- the three records are updated at the process that was running
  have hwrote : ∀ old : Pid → Option ℕ, (fun p => if (s.launched env k').count ≠ s.count ∧
      (s.launched env k').kernel.procs.parent (s.launched env k').kernel.procs.currPid = some p
      then some s.count else old p) =
      Function.update old s.kernel.procs.currPid (some s.count) := by
    intro old
    funext p
    rw [heq]
    by_cases hp : p = s.kernel.procs.currPid
    · simp [hp, hparent]
    · simp [hp, hparent, Ne.symm hp]
  refine ⟨S', hS', fun p id hid => ?_, ?_, ?_⟩
  · have hid' : (s.launched env k').writer p = some id := hid
    show id < (s.launched env k').count
    rw [heq] at hid' ⊢
    by_cases hp : p = s.kernel.procs.currPid
    · simp only [hp, Function.update_self, Option.some.injEq] at hid'
      exact hid' ▸ Nat.lt_succ_self s.count
    · simp only [Function.update_of_ne hp] at hid'
      exact Nat.lt_succ_of_lt (h.writer_lt p id hid')
  · refine (hwrote s.espWriter).trans ?_
    rw [h.espWriter]
    exact (congrArg CallState.writer heq).symm
  · refine (hwrote s.ssWriter).trans ?_
    rw [h.ssWriter]
    exact (congrArg CallState.writer heq).symm

/-- An uninterrupted step. -/
theorem callStep (hshell : ValidShell env.img) (h : Recorded s S) {e : ProcessEvent}
    (hstep : Ece391.callStep env s.toCallState e = some calls) :
    ∃ S', Recorded (s.recorded calls) S' := by
  obtain ⟨S', hS'⟩ := h.toNested.callStep hshell hstep
  cases e with
  | execute command stack =>
    obtain ⟨⟨r, k'⟩, hx, rfl⟩ := Option.map_eq_some_iff.mp hstep
    rcases h.execute_cases h.newParent_eq hx with ⟨_, rfl, -⟩ |
      ⟨_, _, _, _, -, -, -, -, rfl, -⟩ | ⟨cmd, _, i, page, -, hi, rfl, hprocs⟩
    · -- a call that returns has written no entry
      exact ⟨S', h.keep hS' rfl rfl⟩
    · exact ⟨S', h.keep hS' rfl rfl⟩
    · exact h.launch hi page cmd hprocs
  | halt status stack =>
    obtain ⟨⟨r, k'⟩, hx, rfl⟩ := Option.map_eq_some_iff.mp hstep
    rcases h.toRepresents.halt_cases hshell hx with ⟨hroot, cmd, eip, page, rfl, hprocs⟩ |
      ⟨_, _, _, _, _, rfl, -⟩
    · -- a root shell is respawned by a launch that writes nothing
      have hcurr : IsRootPid k'.procs.currPid := by
        rw [hprocs]
        exact hroot
      refine ⟨S', h.keep hS' ?_ ?_⟩ <;> simp only [CallState.launched, if_pos hcurr]
    · exact ⟨S', h.keep hS' rfl rfl⟩
  | tick esp =>
    cases hstep
    exact ⟨S', h.keep hS' rfl rfl⟩
  | switchTerm t =>
    cases hstep
    exact ⟨S', h.keep hS' rfl rfl⟩

/-! ### A launch that is cut -/

/-- What an uninterrupted launch leaves. -/
theorem exec_whole (h : Recorded s S) (hv : launchVars env command stack s.kernel = some v) :
    s.kernel.procs.pcbStatusArray v.i = 0#8 ∧ ∃ whole page,
      exec (Kernel.launchStmt v) s.kernel (launchProgram v) = some whole ∧
      whole.procs = (((s.kernel.procs.take v.i page).fill v.i v.cmd).enter v.i).block
        s.kernel.procs.currPid v.i (s.kernel.procs.tss.esp0 - env.executeFrame)
        (s.kernel.procs.tss.esp0 - env.executeFrame - env.jumpFrame) := by
  obtain ⟨prog, -, -, hfound, hroot, -, hv'⟩ := launchVars_eq_some hv
  have hfree := (findFree_eq_some_some.mp hfound).1
  -- with a free pid left, more than three processes run
  have hparent : s.kernel.procs.newParent = some s.kernel.procs.currPid :=
    h.newParent_eq hfree (s.kernel.procs.progPage v.i)
  have hesp : v.currEsp = s.kernel.procs.tss.esp0 - env.executeFrame := by rw [hv']
  have hjump : v.jumpEsp = s.kernel.procs.tss.esp0 - env.executeFrame - env.jumpFrame := by
    rw [hv']
  rw [← hjump, ← hesp]
  exact ⟨hfree, _, (s.kernel.procs.progPage v.i).splice progImageOffset v.image v.imageSize,
    exec_launchStmt (exec_launchProgram hroot hparent), rfl⟩

/-- With all statements done, the record is that of a launch. -/
theorem cut_launchProgram (hv : launchVars env command stack s.kernel = some v) {page : Buffer}
    (hprocs : k.procs = (((s.kernel.procs.take v.i page).fill v.i v.cmd).enter v.i).block
      s.kernel.procs.currPid v.i (s.kernel.procs.tss.esp0 - env.executeFrame)
      (s.kernel.procs.tss.esp0 - env.executeFrame - env.jumpFrame)) :
    s.cut v (launchProgram v) k = s.recorded (s.launched env k) := by
  obtain ⟨prog, -, -, -, hroot, -, hv'⟩ := launchVars_eq_some hv
  have hjump : v.jumpEsp = s.kernel.procs.tss.esp0 - env.executeFrame - env.jumpFrame := by
    rw [hv']
  have hcurr : k.procs.currPid = v.i := by
    rw [hprocs]
    rfl
  -- all four statements that are recorded are done
  have hcall : .currPid ∈ launchProgram v := by simp [launchProgram]
  have hesp : .theEsp ∈ launchProgram v := by simp [launchProgram, beforeShellEsp]
  have hss : .theSs ∈ launchProgram v := by simp [launchProgram, beforeShellEsp]
  have hsaved : .shellEsp ∈ launchProgram v := by simp [launchProgram]
  simp only [LaunchState.cut, LaunchState.recorded, CallState.launched, hcurr, if_neg hroot, hcall,
    hesp, hss, hsaved, hjump, if_true, true_and, ne_eq, Nat.succ_ne_self, not_false_eq_true]

/-- Before the pid is taken, nothing has been recorded. -/
theorem cut_of_pcbStatus_not_mem (hno : .pcbStatus ∉ (launchProgram v).take n) :
    s.cut v ((launchProgram v).take n) k = { s with kernel := k } := by
  have hmem : ∀ stmt ∈ (launchProgram v).take n, stmt ∈ beforeStatus := by
    match n with
    | 0 => simp
    | 1 => simp [launchProgram, beforeStatus]
    | 2 => simp [launchProgram, beforeStatus]
    | n + 3 => exact absurd (by simp [launchProgram, beforeStatus]) hno
  have hnot : ∀ stmt, stmt ∉ beforeStatus → stmt ∉ (launchProgram v).take n :=
    fun stmt hstmt h => hstmt (hmem stmt h)
  simp only [LaunchState.cut, hnot .currPid (by simp [beforeStatus]),
    hnot .theEsp (by simp [beforeStatus]), hnot .theSs (by simp [beforeStatus]),
    hnot .shellEsp (by simp [beforeStatus]), if_false, false_and]

/-- At a safe point the record is that of a state between two steps: the one before the launch, or
the one behind it. -/
theorem safe_cut (h : Recorded s S) (hv : launchVars env command stack s.kernel = some v)
    (hterm : s.kernel.con.termOnScreen = s.kernel.procs.currTerm)
    (hk : exec (Kernel.launchStmt v) s.kernel ((launchProgram v).take n) = some k)
    (hsafe : .pcbStatus ∉ (launchProgram v).take n ∨ .shellEsp ∈ (launchProgram v).take n) :
    ∃ s₁ S' c, Recorded s₁ S' ∧ s.cut v ((launchProgram v).take n) k = { s₁ with kernel := k } ∧
      k.procs = { s₁.kernel.procs with cr3 := c } ∧
      s₁.kernel.con.termOnScreen = s₁.kernel.procs.currTerm ∧
      (exec (Kernel.launchStmt v) s.kernel (launchProgram v) = some s₁.kernel ∨ s₁ = s) := by
  rcases hsafe with hno | hsaved
  · -- nothing but the page directory has changed
    obtain ⟨c, hprocs⟩ := procs_of_pcbStatus_not_mem hno (exec_run hk)
    exact ⟨s, S, c, h, cut_of_pcbStatus_not_mem hno, hprocs, hterm, Or.inr rfl⟩
  · -- the launch is complete, and its record is that of a step
    rw [take_eq_of_shellEsp_mem hsaved] at hk ⊢
    obtain ⟨hfree, whole, page, hwhole, hprocs⟩ := h.exec_whole hv
    obtain rfl := Option.some.inj (hwhole.symm.trans hk)
    obtain ⟨S', hS'⟩ := h.launch hfree page v.cmd hprocs
    rw [cut_launchProgram hv hprocs]
    have hkernel : (s.recorded (s.launched env whole)).kernel = whole := by
      show (s.launched env whole).kernel = whole
      rw [h.toNested.launched_eq hfree page v.cmd hprocs]
    have hself : ∀ s₁ : LaunchState, s₁.kernel = whole → s₁ = { s₁ with kernel := whole } := by
      rintro s₁ rfl
      rfl
    refine ⟨_, S', whole.procs.cr3, hS', hself _ hkernel, ?_, ?_, Or.inl ?_⟩
    · rw [hkernel]
    · rw [hkernel]
      exact onScreen_exec hterm hwhole
    · rw [hkernel]
      exact hwhole

/-- Ctrl+C between two steps, or with another page directory, kills the running process for the call
that has launched it. -/
theorem kill (env : Env) (h : Recorded s S)
    (hterm : s.kernel.con.termOnScreen = s.kernel.procs.currTerm)
    (hroot : ¬ IsRootPid s.kernel.procs.currPid) {c : Pid}
    (hk : k.procs = { s.kernel.procs with cr3 := c })
    (hkterm : k.con.termOnScreen = k.procs.currTerm) :
    ∃ k', ctrlC env k = some k' ∧ ResumesLauncher { s with kernel := k } k' ∧
      AsKilledIn env s.kernel k' ∧
      ∃ S', Recorded (({ s with kernel := k } : LaunchState).killed k') S' := by
  obtain ⟨call, hw⟩ := h.waits _ _ h.currPid_mem hroot
  obtain ⟨parent, l, hstack, hparent, hwalk⟩ := h.toRepresents.stack_of_child hroot
  obtain rfl := h.toNested.callParent_eq hstack hw
  have hkparent : k.procs.parent k.procs.currPid = some call.parent := by
    rw [hk]
    exact hparent
  obtain ⟨k', hkill, hprocs⟩ := ctrlC_child env (by rw [hk]; exact hroot) hkterm hkparent
  obtain ⟨killed, hkilled, hkprocs⟩ := ctrlC_child env hroot hterm hparent
  -- the page directory is switched once more
  have hleave : k'.procs = s.kernel.procs.decActive.leave call.parent := by
    rw [hprocs, hk]
    rfl
  have hcurr : k'.procs.currPid = call.parent := by
    rw [hleave]
    exact h.thePid s.kernel.procs.currTerm _ (by simp [hstack])
  refine ⟨k', hkill, ⟨call, ?_, hkparent, hcurr, ?_, hw.writer, ?_, ?_, ?_⟩,
    ⟨killed, hkilled, ?_⟩, ?_⟩
  · show s.launch k.procs.currPid = _
    rw [hk]
    exact hw.launch
  · show k.procs.shellEspArray call.parent = _
    rw [hk]
    exact hw.entry
  · exact (congrFun h.espWriter _).trans hw.writer
  · exact (congrFun h.ssWriter _).trans hw.writer
  · apply returnsFrom_of_entry
    show k.procs.shellEspArray call.parent = _
    rw [hk]
    exact hw.entry
  · rw [hleave, hkprocs]
    exact ⟨rfl, rfl, rfl, rfl, fun _ => rfl⟩
  · obtain ⟨S', hS'⟩ := h.toNested.exit 0#8 hstack hwalk hroot hw hleave
    refine ⟨S', ?_, h.writer_lt, h.espWriter, h.ssWriter⟩
    have hwriter : s.writer k'.procs.currPid = some call.id := by
      rw [hcurr, hw.writer]
    show Nested { s.toCallState with
      kernel := k', returned := (s.writer k'.procs.currPid, 0#8) :: s.returned } S'
    rw [hwriter]
    exact hS'

/-! ### The other points -/

/-- Between `curr_pid=i` and the save, the entry of the parent is not the new call's. -/
theorem not_resumesLauncher (h : Recorded s S)
    (hk : exec (Kernel.launchStmt v) s.kernel ((launchProgram v).take n) = some k)
    (hcall : .currPid ∈ (launchProgram v).take n) (hsaved : .shellEsp ∉ (launchProgram v).take n) :
    ¬ ResumesLauncher (s.cut v ((launchProgram v).take n) k) k' := by
  rintro ⟨call, hlaunch, -, -, -, hwriter, -⟩
  have hcurr : k.procs.currPid = v.i := by
    rw [(LaunchKeeps.of_exec (exec_run hk)).currPid, if_pos hcall]
  simp only [LaunchState.cut, hcall, hsaved, if_true, false_and, if_false, hcurr,
    Function.update_self, Option.some.injEq] at hlaunch hwriter
  -- every call that has written the array has an earlier number
  have hlt := h.writer_lt _ _ hwriter
  rw [← hlaunch] at hlt
  exact lt_irrefl _ hlt

/-- Between `pcb_status_array[i]=1` and `curr_pid=i`, the parent is killed and the pid stays
taken. -/
theorem kill_parent (h : Recorded s S) (hv : launchVars env command stack s.kernel = some v)
    (hterm : s.kernel.con.termOnScreen = s.kernel.procs.currTerm)
    (hk : exec (Kernel.launchStmt v) s.kernel ((launchProgram v).take n) = some k)
    (hroot : ¬ IsRootPid s.kernel.procs.currPid)
    (hstatus : .pcbStatus ∈ (launchProgram v).take n)
    (hcall : .currPid ∉ (launchProgram v).take n) (hkill : ctrlC env k = some k') :
    k'.procs.currPid ≠ s.kernel.procs.currPid ∧ k'.procs.pcbStatusArray v.i = 1#8 := by
  have hfree := (h.exec_whole hv).1
  obtain ⟨parent, l, hstack, hparent, -⟩ := h.toRepresents.stack_of_child hroot
  have hmem : parent ∈ S.stack s.kernel.procs.currTerm := by simp [hstack]
  have hne : s.kernel.procs.currPid ≠ v.i := fun heq =>
    h.busy _ _ h.currPid_mem (heq ▸ hfree)
  have hne' : parent ≠ v.i := fun heq => h.busy _ parent hmem (heq ▸ hfree)
  -- the statements so far have left the PCBs of the parent and of its parent alone
  have hkeeps := LaunchKeeps.of_exec (exec_run hk)
  have hcurr : k.procs.currPid = s.kernel.procs.currPid := by
    rw [hkeeps.currPid, if_neg hcall]
  obtain ⟨k₁, hk₁, hprocs⟩ := ctrlC_child env (by rw [hcurr]; exact hroot)
    (onScreen_exec hterm hk) (by rw [hcurr, hkeeps.parent _ hne]; exact hparent)
  obtain rfl := Option.some.inj (hk₁.symm.trans hkill)
  rw [hprocs]
  constructor
  · show (k.procs.pcbs parent).thePid ≠ _
    rw [hkeeps.thePid parent hne', h.thePid _ parent hmem]
    exact h.parent_ne_currPid h.currPid_mem hroot hparent
  · show Function.update k.procs.pcbStatusArray k.procs.currPid 0#8 v.i = _
    rw [hcurr, Function.update_of_ne hne.symm, hkeeps.pcbStatusArray, if_pos hstatus,
      Function.update_self]

/-- After the launch the new process would have been killed, and the parent would run. -/
theorem currPid_of_asKilledIn_whole (h : Recorded s S)
    (hv : launchVars env command stack s.kernel = some v)
    (hterm : s.kernel.con.termOnScreen = s.kernel.procs.currTerm) {whole : Kernel}
    (hwhole : exec (Kernel.launchStmt v) s.kernel (launchProgram v) = some whole)
    (hkilled : AsKilledIn env whole k') : k'.procs.currPid = s.kernel.procs.currPid := by
  obtain ⟨hfree, whole', page, hwhole', hprocs⟩ := h.exec_whole hv
  obtain rfl := Option.some.inj (hwhole'.symm.trans hwhole)
  obtain ⟨killed, hkilled, hsame⟩ := hkilled
  have hcurr : whole'.procs.currPid = v.i := by
    rw [hprocs]
    rfl
  have hparent : whole'.procs.parent whole'.procs.currPid = some s.kernel.procs.currPid := by
    rw [hcurr, hprocs, h.toRepresents.parent_launch hfree, if_pos rfl]
  have hroot : ¬ IsRootPid whole'.procs.currPid := by
    rw [hcurr]
    exact h.not_isRootPid_of_free hfree
  obtain ⟨k₁, hk₁, hk₁procs⟩ := ctrlC_child env hroot (onScreen_exec hterm hwhole) hparent
  obtain rfl := Option.some.inj (hk₁.symm.trans hkilled)
  -- `halt` goes back to the pid in the PCB of the parent
  rw [hsame.currPid, hk₁procs]
  show (whole'.procs.pcbs s.kernel.procs.currPid).thePid = _
  rw [hprocs]
  exact h.toRepresents.thePid_launch hfree page v.cmd _ _

/-- Before the launch the parent would have been killed, and the pid would be free. -/
theorem pcbStatus_of_asKilledIn_start (h : Recorded s S)
    (hv : launchVars env command stack s.kernel = some v)
    (hterm : s.kernel.con.termOnScreen = s.kernel.procs.currTerm)
    (hroot : ¬ IsRootPid s.kernel.procs.currPid) (hkilled : AsKilledIn env s.kernel k') :
    k'.procs.pcbStatusArray v.i = 0#8 := by
  have hfree := (h.exec_whole hv).1
  obtain ⟨killed, hkilled, hsame⟩ := hkilled
  obtain ⟨parent, l, -, hparent, -⟩ := h.toRepresents.stack_of_child hroot
  obtain ⟨k₁, hk₁, hprocs⟩ := ctrlC_child env hroot hterm hparent
  obtain rfl := Option.some.inj (hk₁.symm.trans hkilled)
  have hne : v.i ≠ s.kernel.procs.currPid := fun heq =>
    h.busy _ _ h.currPid_mem (heq ▸ hfree)
  rw [hsame.pcbStatusArray, hprocs]
  show Function.update s.kernel.procs.pcbStatusArray s.kernel.procs.currPid 0#8 v.i = _
  rw [Function.update_of_ne hne, hfree]

/-- So the tables are neither. -/
theorem not_asKilledIn (h : Recorded s S) (hv : launchVars env command stack s.kernel = some v)
    (hterm : s.kernel.con.termOnScreen = s.kernel.procs.currTerm)
    (hk : exec (Kernel.launchStmt v) s.kernel ((launchProgram v).take n) = some k)
    (hroot : ¬ IsRootPid s.kernel.procs.currPid)
    (hstatus : .pcbStatus ∈ (launchProgram v).take n)
    (hcall : .currPid ∉ (launchProgram v).take n) (hkill : ctrlC env k = some k') :
    ¬ ((∃ whole, exec (Kernel.launchStmt v) s.kernel (launchProgram v) = some whole ∧
      AsKilledIn env whole k') ∨ AsKilledIn env s.kernel k') := by
  obtain ⟨hcurr, htaken⟩ := h.kill_parent hv hterm hk hroot hstatus hcall hkill
  rintro (⟨whole, hwhole, hkilled⟩ | hkilled)
  · exact hcurr (h.currPid_of_asKilledIn_whole hv hterm hwhole hkilled)
  · rw [h.pcbStatus_of_asKilledIn_start hv hterm hroot hkilled] at htaken
    exact absurd htaken (by decide)

/-- Ctrl+C in the middle of a launch is safe exactly at the points of `InterruptsSafely`. -/
theorem notHalfKilled_iff (h : Recorded s S) (e : LaunchEvent) :
    NotHalfKilled env s e ↔ InterruptsSafely env s e := by
  cases e with
  | process e => exact Iff.rfl
  | interrupted command stack n =>
    refine forall_congr' fun v => forall₂_congr fun hv hterm => ?_
    obtain ⟨hfree, whole, page, hwhole, -⟩ := h.exec_whole hv
    have hcut := hwhole
    rw [← List.take_append_drop n (launchProgram v), exec_append, Option.bind_eq_some_iff] at hcut
    obtain ⟨k, hk, -⟩ := hcut
    have hcurr := (LaunchKeeps.of_exec (exec_run hk)).currPid
    simp only [hk, Option.some.injEq, exists_eq_left']
    -- a safe point is that of a kill between two steps
    have hkill : ¬ IsRootPid k.procs.currPid →
        .pcbStatus ∉ (launchProgram v).take n ∨ .shellEsp ∈ (launchProgram v).take n →
        ∃ k', ctrlC env k = some k' ∧
          ResumesLauncher (s.cut v ((launchProgram v).take n) k) k' ∧
          ((∃ whole, exec (Kernel.launchStmt v) s.kernel (launchProgram v) = some whole ∧
            AsKilledIn env whole k') ∨ AsKilledIn env s.kernel k') := by
      intro hroot hsafe
      obtain ⟨s₁, S', c, hs₁, hcut, hprocs, hterm₁, hwhen⟩ := h.safe_cut hv hterm hk hsafe
      obtain ⟨k', hk', hresumes, hkilled, -⟩ := hs₁.kill env hterm₁
        (by rw [hprocs] at hroot; exact hroot) hprocs (onScreen_exec hterm hk)
      rw [hcut]
      refine ⟨k', hk', hresumes, ?_⟩
      rcases hwhen with hwhole | rfl
      · exact Or.inl ⟨_, hwhole, hkilled⟩
      · exact Or.inr hkilled
    constructor
    · rintro ⟨-, hkills⟩
      by_cases hcall : .currPid ∈ (launchProgram v).take n
      · rw [if_pos hcall] at hcurr
        have hroot : ¬ IsRootPid k.procs.currPid := by
          rw [hcurr]
          exact h.not_isRootPid_of_free hfree
        -- the new process is killed
        obtain ⟨k', -, hresumes, -⟩ := hkills hroot
        by_contra hno
        rw [not_or, not_or] at hno
        exact h.not_resumesLauncher hk hcall hno.2.2 hresumes
      · rw [if_neg hcall] at hcurr
        by_cases hroot : IsRootPid s.kernel.procs.currPid
        · exact Or.inr (Or.inl ⟨hroot, hcall⟩)
        · -- the launching process is killed
          obtain ⟨k', hk', -, hsame⟩ := hkills (by rw [hcurr]; exact hroot)
          by_contra hno
          rw [not_or, not_not] at hno
          exact h.not_asKilledIn hv hterm hk hroot hno.1 hcall hk' hsame
    · intro hsafe
      refine ⟨fun hroot k' hk' => procs_ctrlC_root hroot hk', fun hroot => hkill hroot ?_⟩
      rcases hsafe with hno | ⟨hroot', hcall⟩ | hsaved
      · exact Or.inl hno
      · rw [hcurr, if_neg hcall] at hroot
        exact absurd hroot' hroot
      · exact Or.inr hsaved

/-- A step whose interrupt is safe keeps the record. -/
theorem launchStep (hshell : ValidShell env.img) (h : Recorded s S) {e : LaunchEvent}
    (hsafe : InterruptsSafely env s e) (hstep : launchStep env s e = some s') :
    ∃ S', Recorded s' S' := by
  cases e with
  | process e =>
    obtain ⟨calls, hcalls, rfl⟩ := Option.map_eq_some_iff.mp hstep
    exact h.callStep hshell hcalls
  | interrupted command stack n =>
    obtain ⟨v, hv, hstep⟩ := Option.bind_eq_some_iff.mp hstep
    split_ifs at hstep with hterm
    rw [ne_eq, not_not] at hterm
    obtain ⟨k, hk, hstep⟩ := Option.bind_eq_some_iff.mp hstep
    obtain ⟨k', hk', hstep⟩ := Option.bind_eq_some_iff.mp hstep
    split_ifs at hstep with hroot
    · -- the launch goes on behind the message
      obtain ⟨last, hlast, hstep⟩ := Option.bind_eq_some_iff.mp hstep
      obtain rfl := Option.some.inj hstep
      obtain ⟨hfree, whole, page, hwhole, hprocs⟩ := h.exec_whole hv
      have hrun : some whole.procs = some last.procs := by
        rw [← exec_run hwhole, ← List.take_append_drop n (launchProgram v), exec_append,
          exec_run hk, Option.bind_some, ← procs_ctrlC_root hroot hk', exec_run hlast]
      rw [Option.some.inj hrun] at hprocs
      rw [cut_launchProgram hv hprocs]
      exact h.launch hfree page v.cmd hprocs
    · -- the process that is killed: the parent early on, the new process at the end
      obtain rfl := Option.some.inj hstep
      have hpoint : .pcbStatus ∉ (launchProgram v).take n ∨
          .shellEsp ∈ (launchProgram v).take n := by
        rcases hsafe v hv hterm with hno | ⟨hroot', hcall⟩ | hsaved
        · exact Or.inl hno
        · rw [(LaunchKeeps.of_exec (exec_run hk)).currPid, if_neg hcall] at hroot
          exact absurd hroot' hroot
        · exact Or.inr hsaved
      obtain ⟨s₁, S', c, hs₁, hcut, hprocs, hterm₁, -⟩ := h.safe_cut hv hterm hk hpoint
      obtain ⟨killed, hkilled, -, -, hrecorded⟩ := hs₁.kill env hterm₁
        (by rw [hprocs] at hroot; exact hroot) hprocs (onScreen_exec hterm hk)
      obtain rfl := Option.some.inj (hk'.symm.trans hkilled)
      rw [hcut]
      exact hrecorded

/-- After `entry` nothing has been recorded. -/
theorem boot {ram : BootRam} {r : ExecResult} {k₀ : Kernel} (hshell : ValidShell env.img)
    (hentry : entry env ram = some (r, k₀)) : Recorded (.boot k₀) bootForest :=
  ⟨.start hshell hentry, fun _ _ h => (by cases h), rfl, rfl⟩

end Recorded

/-- Along a run from boot, no process is half killed exactly if every Ctrl+C that interrupts a
launch comes at a safe point. -/
theorem along_notHalfKilled_iff {env : Env} {ram : BootRam} {r : ExecResult} {k₀ : Kernel}
    (hshell : ValidShell env.img) (hentry : entry env ram = some (r, k₀))
    (es : List LaunchEvent) :
    Along (launchStep env) (NotHalfKilled env) (.boot k₀) es ↔
      Along (launchStep env) (InterruptsSafely env) (.boot k₀) es := by
  refine along_iff_of_invariant (I := fun s => ∃ S, Recorded s S) (R := fun _ => True) ?_ ?_
    ⟨bootForest, .boot hshell hentry⟩ fun _ _ => trivial
  · rintro s e s' ⟨S, hS⟩ - hsafe hstep
    exact hS.launchStep hshell hsafe hstep
  · rintro s e ⟨S, hS⟩ -
    exact hS.notHalfKilled_iff e

/-! ## Runs with Ctrl+C -/

/-- A file leaves no more statements than the page has bytes. -/
theorem take_eq_launchProgram {env : Env} {command stack : Buffer} {k : Kernel} {v : LaunchVars}
    {n : ℕ} (h : launchVars env command stack k = some v) (hn : 4000000 ≤ n) :
    (launchProgram v).take n = launchProgram v := by
  obtain ⟨prog, -, -, -, -, -, hv⟩ := launchVars_eq_some h
  have hsize : v.imageSize ≤ 3899392 := by
    rw [hv]
    exact Nat.min_le_left _ _
  apply List.take_of_length_le
  simp only [launchProgram, beforeStatus, beforeCurrPid, beforeShellEsp, fillStmts,
    List.length_append, List.length_cons, List.length_map, List.length_range, List.length_nil]
  omega

/-- A root shell launches a shell with Ctrl+C right at the start, which is ignored; that shell
launches another one, with Ctrl+C at the very end, which kills the new one; and it exits itself. -/
theorem along_notHalfKilled_sample :
    ∃ r k₀ s, entry sampleEnv zeroRam = some (r, k₀) ∧
      exec (launchStep sampleEnv) (.boot k₀)
        [.interrupted (commandLine "shell") (fun _ => 0#8) 2,
          .interrupted (commandLine "shell") (fun _ => 0#8) 4000000,
          .process (.halt 7#8 fun _ => 0#8)] = some s ∧
      s.returned = [(some 0, 7#8), (some 1, 0#8)] ∧
      Along (launchStep sampleEnv) (NotHalfKilled sampleEnv) (.boot k₀)
        [.interrupted (commandLine "shell") (fun _ => 0#8) 2,
          .interrupted (commandLine "shell") (fun _ => 0#8) 4000000,
          .process (.halt 7#8 fun _ => 0#8)] := by
  have hrun : (entry sampleEnv zeroRam).any fun x => (exec (launchStep sampleEnv) (.boot x.2)
      [.interrupted (commandLine "shell") (fun _ => 0#8) 2,
        .interrupted (commandLine "shell") (fun _ => 0#8) 4000000,
        .process (.halt 7#8 fun _ => 0#8)]).any fun s =>
      decide (s.returned = [(some 0, 7#8), (some 1, 0#8)]) := by
    decide +kernel
  simp only [Option.any_eq_true, decide_eq_true_eq] at hrun
  obtain ⟨⟨r, k₀⟩, hentry, s, hs, hreturned⟩ := hrun
  refine ⟨r, k₀, s, hentry, hs, hreturned,
    (along_notHalfKilled_iff validShell_sampleImage hentry _).mpr ?_⟩
  refine ⟨fun v _ _ => Or.inl (by simp [launchProgram, beforeStatus]), fun s₁ _ => ?_⟩
  refine ⟨fun v hv _ => Or.inr (Or.inr ?_), fun s₂ _ => ⟨trivial, fun _ _ => trivial⟩⟩
  rw [take_eq_launchProgram hv le_rfl]
  simp [launchProgram]

/-- The shell of terminal 0 launches a program for the first time, with Ctrl+C right after
`curr_pid=i`: the new process is killed, and `exit_to_shell` goes on at the stack pointer 0. -/
theorem not_notHalfKilled_midway :
    ∃ r k₀ v k k', entry sampleEnv zeroRam = some (r, k₀) ∧
      launchVars sampleEnv (commandLine "shell") (fun _ => 0#8) k₀ = some v ∧
      exec (Kernel.launchStmt v) k₀ ((launchProgram v).take 59) = some k ∧
      ctrlC sampleEnv k = some k' ∧ k.procs.currPid = 3 ∧ k'.procs.currPid = 0 ∧
      k.procs.shellEspArray 0 = 0#32 ∧
      ¬ Along (launchStep sampleEnv) (NotHalfKilled sampleEnv) (.boot k₀)
        [.interrupted (commandLine "shell") (fun _ => 0#8) 59] := by
  have hrun : (entry sampleEnv zeroRam).any fun x =>
      (launchVars sampleEnv (commandLine "shell") (fun _ => 0#8) x.2).any fun v =>
      (exec (Kernel.launchStmt v) x.2 ((launchProgram v).take 59)).any fun k =>
      (ctrlC sampleEnv k).any fun k' =>
      decide (x.2.con.termOnScreen = x.2.procs.currTerm ∧ .currPid ∈ (launchProgram v).take 59 ∧
        .shellEsp ∉ (launchProgram v).take 59 ∧ k.procs.currPid = 3 ∧ k'.procs.currPid = 0 ∧
        k.procs.shellEspArray 0 = 0#32) := by
    decide +kernel
  simp only [Option.any_eq_true, decide_eq_true_eq] at hrun
  obtain ⟨⟨r, k₀⟩, hentry, v, hv, k, hk, k', hk', hterm, hcall, hsaved, hpid, hpid', hesp⟩ := hrun
  refine ⟨r, k₀, v, k, k', hentry, hv, hk, hk', hpid, hpid', hesp, fun h => ?_⟩
  have hboot := Recorded.boot validShell_sampleImage hentry
  rcases (hboot.notHalfKilled_iff _).mp h.1 v hv hterm with hno | ⟨-, hno⟩ | hno
  · exact hno (pcbStatus_mem_of_currPid_mem hcall)
  · exact hno hcall
  · exact hsaved hno

end Ece391
