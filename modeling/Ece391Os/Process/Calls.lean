import Ece391Os.Kernel.Jump
import Ece391Os.Lib.Transition
import Ece391Os.Process.Boot

/-!
# Calls of `execute` and the exits that return from them

A call of `execute` that launches a process waits in `jump_to_program` until the process halts. The
stack pointer it waits at is in `shell_esp_array`, at the index of the calling process, and every
exit takes the pointer it goes on with from there.

* `callStep` is the step of the processes with a record of the calls: which one has launched a
  process, which one has written an entry of `shell_esp_array` last, which ones have been returned
  from.
* `Nested` is the invariant: each process above a root shell has a waiting call, which nothing has
  overwritten since.
* `along_returnsToLauncher`: in every run, each exit returns to the call that has launched the
  process, and no call is returned from twice.
-/

namespace Ece391

open I386 Transition

/-! ## The calls -/

/-- A call of `execute` that has launched a process: the how-manieth it is, the process that called,
and the stack pointer of its `jump_to_program`. -/
structure Launch where
  id : ℕ
  parent : Pid
  esp : Word
  deriving DecidableEq

/-- The kernel with the record of the calls. -/
structure CallState where
  kernel : Kernel
  /-- How many calls have launched a process. -/
  count : ℕ
  /-- The call that has launched a process; none for a root shell. -/
  launch : Pid → Option Launch
  /-- The call that has written an entry of `shell_esp_array` last. -/
  writer : Pid → Option ℕ
  /-- The frames `exit_to_shell` has gone on with, and the values it has returned there. -/
  returned : List (Option ℕ × Byte)

namespace CallState

/-- The processes of `entry` have been launched by no process. -/
def start (k : Kernel) : CallState :=
  { kernel := k, count := 0, launch := fun _ => none, writer := fun _ => none, returned := [] }

/-- `execute` has launched a process. For a root shell `jump_to_program` saves nothing, for another
process it writes the entry of `parent_pcb->the_pid`. -/
def launched (env : Env) (s : CallState) (kernel : Kernel) : CallState :=
  let i := kernel.procs.currPid
  -- `jump_to_program` is called with -1
  if IsRootPid i then { s with kernel, launch := Function.update s.launch i none }
  else
    let call :=
      { id := s.count
        parent := s.kernel.procs.currPid
        esp := s.kernel.procs.tss.esp0 - env.executeFrame - env.jumpFrame }
    let written := (kernel.procs.parent i).map fun parent => (kernel.procs.pcbs parent).thePid
    { s with
      kernel
      count := s.count + 1
      launch := Function.update s.launch i (some call)
      writer := fun p => if written = some p then some s.count else s.writer p }

end CallState

/-- One step of the processes. -/
def callStep (env : Env) (s : CallState) : ProcessEvent → Option CallState
  | .execute command stack =>
    (execute env command stack s.kernel).map fun (r, kernel) =>
      match r with
      | .userMode _ => s.launched env kernel
      | _ => { s with kernel }
  | .halt status stack =>
    (halt env status stack s.kernel).map fun (r, kernel) =>
      match r with
      | .respawned _ => s.launched env kernel
      | .exitToShell status pid =>
        { s with kernel, returned := (s.writer pid, status) :: s.returned }
  | .tick esp => some { s with kernel := (contextSwitch esp s.kernel).2 }
  | .switchTerm t => some { s with kernel := switchTerm t s.kernel }

/-- On the machine, `exit_to_shell(status, parent)` returns `status` from the call: `c` is the state
in which the call enters `jump_to_program`, `d` the one in which `exit_to_shell` is entered. Between
the two the frame of `jump_to_program` has not been overwritten. -/
def ReturnsFrom (shellEspArray : Pid → Word) (call : Launch) (status : Byte) : Prop :=
  ∀ (table table' : ℕ → Word) (c d : Cpu), c.esp - 4#32 = call.esp →
    Agree call.esp 8 (jumpToProgram table c).2.mem d.enter.mem →
    leWord d.mem (d.esp + 4#32) = status.setWidth 32 →
    leWord d.mem (d.esp + 8#32) = BitVec.ofNat 32 call.parent →
    (∀ p : Pid, table' p = shellEspArray p) →
    (exitToShell table' d).gpr .eax = status.setWidth 32 ∧
      (exitToShell table' d).gpr .ebp = c.gpr .ebp ∧
      (exitToShell table' d).esp = c.esp + 4#32 ∧
      (exitToShell table' d).eip = leWord c.mem c.esp

/-- The exit of a process that is no root shell returns from the call that has launched it, whose
entry of `shell_esp_array` no other call has written, and which has not been returned from. -/
def ReturnsToLauncher (env : Env) (s : CallState) : ProcessEvent → Prop
  | .halt status stack => ¬ IsRootPid s.kernel.procs.currPid →
    ∃ call k', s.launch s.kernel.procs.currPid = some call ∧
      halt env status stack s.kernel = some (.exitToShell status call.parent, k') ∧
      k'.procs.currPid = call.parent ∧
      s.kernel.procs.shellEspArray call.parent = call.esp ∧
      s.writer call.parent = some call.id ∧
      some call.id ∉ s.returned.map Prod.fst ∧
      ReturnsFrom s.kernel.procs.shellEspArray call status
  | _ => True

theorem returnsFrom_of_entry {shellEspArray : Pid → Word} {call : Launch} {status : Byte}
    (hentry : shellEspArray call.parent = call.esp) : ReturnsFrom shellEspArray call status := by
  intro table table' c d hesp hframe hstatus hpid htable
  have hwords : words d.enter.mem call.esp 2 = jumpFrame c := by
    rw [words_congr hframe, ← hesp, words_jumpToProgram]
  have hp : call.parent.val < 2 ^ 31 := lt_trans call.parent.isLt (by decide)
  obtain ⟨heax, hebp, hesp', heip⟩ := exitToShell_returns hstatus hpid hp
    ((htable call.parent).trans hentry) hwords
  refine ⟨heax, hebp, ?_, heip⟩
  rw [hesp', ← hesp]
  bv_omega

/-! ## The invariant -/

/-- The call that has launched process `c` waits: its parent is the process that called, nothing has
overwritten its stack pointer, and it has not been returned from. -/
structure Waits (s : CallState) (c : Pid) (call : Launch) : Prop where
  launch : s.launch c = some call
  parent : s.kernel.procs.parent c = some call.parent
  entry : s.kernel.procs.shellEspArray call.parent = call.esp
  writer : s.writer call.parent = some call.id
  lt : call.id < s.count
  fresh : some call.id ∉ s.returned.map Prod.fst

/-- Every process on the stacks but the root shells has a waiting call, and no two the same. -/
structure Nested (s : CallState) (S : Forest) : Prop extends Represents s.kernel.procs S where
  waits : ∀ t, ∀ c ∈ S.stack t, ¬ IsRootPid c → ∃ call, Waits s c call
  distinct : ∀ c c' call call', S.Mem c → ¬ IsRootPid c → S.Mem c' → ¬ IsRootPid c' →
    s.launch c = some call → s.launch c' = some call' → call.id = call'.id → c = c'
  past : ∀ x ∈ s.returned.map Prod.fst, ∃ id < s.count, x = some id
  nodup : (s.returned.map Prod.fst).Nodup

namespace Nested

variable {env : Env} {s s' : CallState} {S : Forest} {e : ProcessEvent} {k' : Kernel}
  {command stack : Buffer} {status : Byte} {r : ExecResult} {hr : HaltResult}

/-- A step that changes neither the parents nor the saved stack pointers. -/
theorem congr (h : Nested s S) (hrep : Represents k'.procs S)
    (hparent : ∀ t, ∀ c ∈ S.stack t, ¬ IsRootPid c →
      k'.procs.parent c = s.kernel.procs.parent c)
    (hentry : k'.procs.shellEspArray = s.kernel.procs.shellEspArray) :
    Nested { s with kernel := k' } S where
  toRepresents := hrep
  waits t c hc hroot := by
    obtain ⟨call, hw⟩ := h.waits t c hc hroot
    exact ⟨call, hw.launch, (hparent t c hc hroot).trans hw.parent, hentry ▸ hw.entry, hw.writer,
      hw.lt, hw.fresh⟩
  distinct := h.distinct
  past := h.past
  nodup := h.nodup

/-- The record of a launch by the running process. -/
theorem launched_eq (h : Nested s S) {i : Pid} (hi : s.kernel.procs.pcbStatusArray i = 0#8)
    (page : Buffer) (cmd : Command)
    (hprocs : k'.procs = (((s.kernel.procs.take i page).fill i cmd).enter i).block
      s.kernel.procs.currPid i (s.kernel.procs.tss.esp0 - env.executeFrame)
      (s.kernel.procs.tss.esp0 - env.executeFrame - env.jumpFrame)) :
    s.launched env k' =
      { s with
        kernel := k'
        count := s.count + 1
        launch := Function.update s.launch i (some
          { id := s.count
            parent := s.kernel.procs.currPid
            esp := s.kernel.procs.tss.esp0 - env.executeFrame - env.jumpFrame })
        writer := Function.update s.writer s.kernel.procs.currPid (some s.count) } := by
  have hcurr : k'.procs.currPid = i := by
    rw [hprocs]
    rfl
  have hparent : k'.procs.parent i = some s.kernel.procs.currPid := by
    rw [hprocs, h.toRepresents.parent_launch hi, if_pos rfl]
  have hthePid : (k'.procs.pcbs s.kernel.procs.currPid).thePid = s.kernel.procs.currPid := by
    rw [hprocs]
    exact h.toRepresents.thePid_launch hi page cmd _ _
  -- the entry written is the one of the process that was running
  have hwriter : (fun p => if (k'.procs.parent i).map (fun q => (k'.procs.pcbs q).thePid) = some p
      then some s.count else s.writer p) =
      Function.update s.writer s.kernel.procs.currPid (some s.count) := by
    funext p
    rw [hparent, Option.map_some, hthePid]
    by_cases hp : p = s.kernel.procs.currPid
    · simp [hp]
    · simp [hp, Ne.symm hp]
  simp only [CallState.launched, hcurr, if_neg (h.not_isRootPid_of_free hi), hwriter]

/-- A launch adds its own call and overwrites no other one: no process waits at the entry of the
process that was running. -/
theorem launch (h : Nested s S) {i : Pid} (hi : s.kernel.procs.pcbStatusArray i = 0#8)
    (page : Buffer) (cmd : Command)
    (hprocs : k'.procs = (((s.kernel.procs.take i page).fill i cmd).enter i).block
      s.kernel.procs.currPid i (s.kernel.procs.tss.esp0 - env.executeFrame)
      (s.kernel.procs.tss.esp0 - env.executeFrame - env.jumpFrame)) :
    ∃ S', Nested (s.launched env k') S' := by
  have hmem := h.not_mem_of_free hi
  have hroot : ¬ IsRootPid i := h.not_isRootPid_of_free hi
  have hne : ∀ {t c}, c ∈ S.stack t → c ≠ i := by
    rintro t c hc rfl
    exact hmem ⟨t, hc⟩
  have hrep : Represents k'.procs (S.push s.kernel.procs.currTerm i hmem) :=
    hprocs ▸ h.toRepresents.launch hi page cmd _ _
  have hparent : ∀ p, k'.procs.parent p =
      if p = i then some s.kernel.procs.currPid else s.kernel.procs.parent p :=
    hprocs ▸ h.toRepresents.parent_launch hi page cmd _ _
  have hentry : k'.procs.shellEspArray = Function.update s.kernel.procs.shellEspArray
      s.kernel.procs.currPid (s.kernel.procs.tss.esp0 - env.executeFrame - env.jumpFrame) := by
    -- `parent_pcb->the_pid` selects the entry
    have hslot : ((((s.kernel.procs.take i page).fill i cmd).enter i).pcbs
        s.kernel.procs.currPid).thePid = s.kernel.procs.currPid := by
      rw [Procs.pcbs_enter, Procs.thePid_fill, if_neg (hne h.currPid_mem)]
      exact h.thePid _ _ h.currPid_mem
    rw [hprocs, Procs.block, hslot]
    rfl
  rw [h.launched_eq hi page cmd hprocs]
  refine ⟨_, hrep, fun t c hc hcroot => ?_, fun c c' call call' hc hcroot hc' hcroot' => ?_,
    fun x hx => ?_, h.nodup⟩
  · rcases (RootedStacks.mem_push_stack hmem).mp hc with ⟨rfl, -⟩ | hc
    · -- the new call
      refine ⟨_, Function.update_self .., by rw [hparent, if_pos rfl],
        by rw [hentry, Function.update_self], Function.update_self .., Nat.lt_succ_self _,
        fun hx => ?_⟩
      obtain ⟨id, hid, heq⟩ := h.past _ hx
      have hcount : s.count = id := Option.some.inj heq
      omega
    · -- the other waiting calls have other parents
      obtain ⟨call, hw⟩ := h.waits t c hc hcroot
      have hother := h.parent_ne_currPid hc hcroot hw.parent
      exact ⟨call, by simpa [hne hc] using hw.launch, by simpa [hparent, hne hc] using hw.parent,
        by simpa [hentry, hother] using hw.entry, by simpa [hother] using hw.writer,
        Nat.lt_succ_of_lt hw.lt, hw.fresh⟩
  · -- the number of the new call is higher than those of the others
    have hlt : ∀ {p call}, p ≠ i → (S.push s.kernel.procs.currTerm i hmem).Mem p →
        ¬ IsRootPid p → s.launch p = some call → call.id < s.count := by
      rintro p call hp ⟨t, ht⟩ hproot hlaunch
      obtain ⟨call', hw⟩ := h.waits t p
        (((RootedStacks.mem_push_stack hmem).mp ht).resolve_left fun hno => hp hno.1) hproot
      rw [hw.launch] at hlaunch
      cases hlaunch
      exact hw.lt
    have hold : ∀ {p}, p ≠ i → (S.push s.kernel.procs.currTerm i hmem).Mem p → S.Mem p := by
      rintro p hp ⟨t, ht⟩
      exact ⟨t, ((RootedStacks.mem_push_stack hmem).mp ht).resolve_left fun hno => hp hno.1⟩
    intro hlaunch hlaunch' hid
    by_cases hci : c = i <;> by_cases hci' : c' = i
    · rw [hci, hci']
    · simp only [hci, Function.update_self, Option.some.injEq, Function.update_of_ne hci']
        at hlaunch hlaunch'
      have hless := hlt hci' hc' hcroot' hlaunch'
      rw [← hid, ← hlaunch] at hless
      exact absurd hless (lt_irrefl s.count)
    · simp only [hci', Function.update_self, Option.some.injEq, Function.update_of_ne hci]
        at hlaunch hlaunch'
      have hless := hlt hci hc hcroot hlaunch
      rw [hid, ← hlaunch'] at hless
      exact absurd hless (lt_irrefl s.count)
    · simp only [Function.update_of_ne hci, Function.update_of_ne hci'] at hlaunch hlaunch'
      exact h.distinct c c' call call' (hold hci hc) hcroot (hold hci' hc') hcroot' hlaunch
        hlaunch' hid
  · obtain ⟨id, hid, heq⟩ := h.past x hx
    exact ⟨id, Nat.lt_succ_of_lt hid, heq⟩

/-- A root shell is replaced by a new one, for which `jump_to_program` saves nothing. -/
theorem respawn (h : Nested s S) (hroot : IsRootPid s.kernel.procs.currPid) (page : Buffer)
    (cmd : Command)
    (hprocs : k'.procs = ((s.kernel.procs.decActive.freeRoot.take s.kernel.procs.currPid page).fill
      s.kernel.procs.currPid cmd).enter s.kernel.procs.currPid) :
    Nested (s.launched env k') S := by
  have hcurr : k'.procs.currPid = s.kernel.procs.currPid := by
    rw [hprocs]
    rfl
  have hrep : Represents k'.procs S := hprocs ▸ h.toRepresents.respawn hroot page cmd
  have hne : ∀ {c}, ¬ IsRootPid c → c ≠ s.kernel.procs.currPid := by
    rintro c hc rfl
    exact hc hroot
  have hparent : ∀ t, ∀ c ∈ S.stack t, ¬ IsRootPid c →
      k'.procs.parent c = s.kernel.procs.parent c := by
    intro t c _ hc
    rw [hprocs, Procs.parent_enter, Procs.parent_fill, if_neg (hne hc)]
    rfl
  -- the other processes keep their parents and their saved stack pointers
  have hkept := h.congr hrep hparent (by rw [hprocs]; rfl)
  rw [CallState.launched]
  simp only [hcurr, if_pos hroot]
  refine ⟨hrep, fun t c hc hcroot => ?_, fun c c' call call' hc hcroot hc' hcroot' => ?_,
    hkept.past, hkept.nodup⟩
  · obtain ⟨call, hw⟩ := hkept.waits t c hc hcroot
    exact ⟨call, by simpa [hne hcroot] using hw.launch, hw.parent, hw.entry, hw.writer, hw.lt,
      hw.fresh⟩
  · simp only [Function.update_of_ne (hne hcroot), Function.update_of_ne (hne hcroot')]
    exact h.distinct c c' call call' hc hcroot hc' hcroot'

/-- An exit returns from the call of the running process, and the calls of the others go on
waiting. -/
theorem exit (h : Nested s S) {parent : Pid} {l : List Pid} {call : Launch} (status : Byte)
    (hstack : S.stack s.kernel.procs.currTerm = s.kernel.procs.currPid :: parent :: l)
    (hwalk : Walk s.kernel.procs.parent IsRootPid parent (parent :: l))
    (hroot : ¬ IsRootPid s.kernel.procs.currPid) (hcall : Waits s s.kernel.procs.currPid call)
    (hprocs : k'.procs = s.kernel.procs.decActive.leave parent) :
    ∃ S', Nested { s with kernel := k', returned := (some call.id, status) :: s.returned } S' := by
  have hlen : 1 < (S.stack s.kernel.procs.currTerm).length := by simp [hstack]
  have hrep : Represents k'.procs (S.pop s.kernel.procs.currTerm hlen) :=
    hprocs ▸ h.toRepresents.leave hstack hwalk hlen
  have hmem : ∀ {c}, (S.pop s.kernel.procs.currTerm hlen).Mem c → S.Mem c := by
    rintro c ⟨t, hc⟩
    exact ⟨t, RootedStacks.mem_of_mem_pop_stack hlen hc⟩
  -- the process is on no stack any more
  have hne : ∀ {c}, (S.pop s.kernel.procs.currTerm hlen).Mem c → c ≠ s.kernel.procs.currPid := by
    rintro c hc rfl
    exact RootedStacks.not_mem_pop hlen (by simp [hstack]) hc
  refine ⟨_, hrep, fun t c hc hcroot => ?_, fun c c' call call' hc hcroot hc' hcroot' => ?_,
    fun x hx => ?_, ?_⟩
  · obtain ⟨call', hw⟩ := h.waits t c (RootedStacks.mem_of_mem_pop_stack hlen hc) hcroot
    refine ⟨call', hw.launch, ?_, ?_, hw.writer, hw.lt, ?_⟩
    · rw [hprocs]
      exact hw.parent
    · rw [hprocs]
      exact hw.entry
    · rw [List.map_cons, List.mem_cons, not_or]
      -- another call has another number
      refine ⟨fun hid => hne ⟨t, hc⟩ ?_, hw.fresh⟩
      exact h.distinct c _ call' call (hmem ⟨t, hc⟩) hcroot ⟨_, h.currPid_mem⟩ hroot hw.launch
        hcall.launch (Option.some.inj hid)
  · exact h.distinct c c' call call' (hmem hc) hcroot (hmem hc') hcroot'
  · rcases List.mem_cons.mp hx with rfl | hx
    · exact ⟨call.id, hcall.lt, rfl⟩
    · exact h.past x hx
  · exact List.nodup_cons.mpr ⟨hcall.fresh, h.nodup⟩

/-- The call of the running process has been made by the process below it. -/
theorem callParent_eq (h : Nested s S) {parent : Pid} {l : List Pid} {call : Launch}
    (hstack : S.stack s.kernel.procs.currTerm = s.kernel.procs.currPid :: parent :: l)
    (hw : Waits s s.kernel.procs.currPid call) : parent = call.parent := by
  have hwalk := h.walk s.kernel.procs.currTerm
  rw [hstack, ← h.currPid] at hwalk
  have hparent := hwalk.tail.2.1
  exact Option.some.inj (hparent.symm.trans hw.parent)

theorem callStep (hshell : ValidShell env.img) (h : Nested s S)
    (hstep : callStep env s e = some s') : ∃ S', Nested s' S' := by
  cases e with
  | execute command stack =>
    obtain ⟨⟨r, k'⟩, hx, rfl⟩ := Option.map_eq_some_iff.mp hstep
    rcases h.execute_cases h.newParent_eq hx with ⟨_, rfl, hprocs⟩ |
      ⟨_, _, i, page, -, -, -, hi, rfl, hprocs⟩ | ⟨cmd, _, i, page, -, hi, rfl, hprocs⟩
    · -- the call returns, perhaps with a process leaked
      refine ⟨S, h.congr (hprocs ▸ h.toRepresents) (fun _ _ _ _ => ?_) ?_⟩ <;> rw [hprocs]
    · refine ⟨S, h.congr (hprocs ▸ h.toRepresents.leak hi page) (fun _ _ _ _ => ?_) ?_⟩ <;>
        rw [hprocs] <;> rfl
    · exact h.launch hi page cmd hprocs
  | halt status stack =>
    obtain ⟨⟨r, k'⟩, hx, rfl⟩ := Option.map_eq_some_iff.mp hstep
    rcases h.toRepresents.halt_cases hshell hx with ⟨hroot, cmd, eip, page, rfl, hprocs⟩ |
      ⟨hroot, parent, l, hstack, hwalk, rfl, hprocs⟩
    · -- a root shell is replaced, a child returns to its launcher
      exact ⟨S, h.respawn hroot page cmd hprocs⟩
    · obtain ⟨call, hw⟩ := h.waits _ _ h.currPid_mem hroot
      obtain rfl := h.callParent_eq hstack hw
      have hexit := h.exit status hstack hwalk hroot hw hprocs
      rw [← hw.writer] at hexit
      exact hexit
  | tick esp =>
    cases hstep
    refine ⟨S, h.congr (h.toRepresents.contextSwitch esp) (fun _ c _ _ => ?_) ?_⟩ <;>
      rw [procs_contextSwitch] <;> split_ifs
    · exact Procs.parent_interrupt ..
    · rw [Procs.parent_switchTo, Procs.parent_interrupt]
    · rfl
    · rfl
  | switchTerm t =>
    cases hstep
    refine ⟨S, h.congr (h.toRepresents.switchTerm t) (fun _ _ _ _ => ?_) ?_⟩ <;>
      rw [procs_switchTerm] <;> split_ifs <;> rfl

/-- The exit of a child goes on in the call that has launched it. -/
theorem returnsToLauncher (h : Nested s S) (e : ProcessEvent) :
    ReturnsToLauncher env s e := by
  cases e with
  | halt status stack =>
    intro hroot
    obtain ⟨call, hw⟩ := h.waits _ _ h.currPid_mem hroot
    obtain ⟨parent, l, hstack, hparent, -⟩ := h.toRepresents.stack_of_child hroot
    -- the parent pointer and the record name the same process
    obtain rfl := h.callParent_eq hstack hw
    have hcurr : (s.kernel.procs.decActive.leave call.parent).currPid = call.parent :=
      h.thePid s.kernel.procs.currTerm _ (by simp [hstack])
    obtain ⟨k', hx, hk'⟩ : ∃ k', halt env status stack s.kernel =
        some (.exitToShell status call.parent, k') ∧ k'.procs.currPid = call.parent := by
      refine ⟨_, (halt_child hroot).trans
        (haltChild_eq_some.mpr ⟨call.parent, hparent, ?_, rfl⟩), hcurr⟩
      exact congrArg _ hcurr.symm
    exact ⟨call, k', hw.launch, hx, hk', hw.entry, hw.writer, hw.fresh,
      returnsFrom_of_entry hw.entry⟩
  | execute command stack => trivial
  | tick esp => trivial
  | switchTerm t => trivial

/-- After `entry` no call waits. -/
theorem start {ram : BootRam} {r : ExecResult} {k₀ : Kernel} (hshell : ValidShell env.img)
    (hentry : entry env ram = some (r, k₀)) : Nested (.start k₀) bootForest := by
  refine ⟨(entry_spec hshell hentry).exact.toRepresents, fun t c hc hroot => ?_,
    fun c c' call call' _ _ _ _ h => ?_, fun x hx => ?_, List.nodup_nil⟩
  · obtain rfl := List.mem_singleton.mp hc
    exact absurd (isRootPid_rootPid t) hroot
  · cases h
  · cases hx

end Nested

/-- From boot, every exit of a process returns its status from the call of `execute` that has
launched the process, and no call is returned from twice. What is launched has been given a
`ShortCommand` (`shortCommand_of_execute`). -/
theorem along_returnsToLauncher {env : Env} {ram : BootRam} {r : ExecResult} {k₀ : Kernel}
    (hshell : ValidShell env.img) (hentry : entry env ram = some (r, k₀))
    (es : List ProcessEvent) :
    Along (callStep env) (ReturnsToLauncher env) (.start k₀) es ∧
      Always (callStep env) (fun s => (s.returned.map Prod.fst).Nodup) (.start k₀) es := by
  have hstart := Nested.start hshell hentry
  have hinv : ∀ s e s', (∃ S, Nested s S) → True → callStep env s e = some s' →
      ∃ S, Nested s' S := fun s e s' ⟨S, hS⟩ _ hstep => hS.callStep hshell hstep
  have hall : Along (callStep env) (fun _ _ => True) (.start k₀) es :=
    along_of_forall (P := fun _ => True) (fun _ _ => trivial) _
  constructor
  · exact along_of_invariant hinv (fun s e ⟨S, hS⟩ _ => hS.returnsToLauncher e)
      ⟨bootForest, hstart⟩ hall
  · intro fs hfs s' hs'
    obtain ⟨S, hS⟩ := always_of_invariant hinv ⟨bootForest, hstart⟩ hall fs hfs s' hs'
    exact hS.nodup

/-- A launch on terminal 0, one on terminal 1 after a switch, and the exit of the second process. -/
theorem along_returnsToLauncher_sample :
    ∃ r k₀, entry sampleEnv zeroRam = some (r, k₀) ∧
      Along (callStep sampleEnv) (ReturnsToLauncher sampleEnv) (.start k₀)
        [.execute (commandLine "shell") (fun _ => 0#8), .switchTerm 1, .tick 0x7F9F00#32,
          .tick 0x7F9F00#32, .execute (commandLine "shell") (fun _ => 0#8),
          .halt 7#8 (fun _ => 0#8)] := by
  obtain ⟨⟨r, k₀⟩, hentry⟩ := Option.isSome_iff_exists.mp entry_sampleEnv
  exact ⟨r, k₀, hentry, (along_returnsToLauncher validShell_sampleImage hentry _).1⟩

end Ece391
