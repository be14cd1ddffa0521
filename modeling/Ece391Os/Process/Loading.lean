import Ece391Os.Kernel.Paging
import Ece391Os.Lib.Transition
import Ece391Os.Process.Boot

/-!
# Loading a program

`execute` switches to the page directory of the new process before it copies the file to 0x08048000.

* `Loads` says what a launch does to user memory: the first bytes of the file are in the page of the
  new process, where its directory maps them, and no other byte has changed.
* `execute_loads`: every launch does this, in any state of the kernel.
* `pageStep` is the step of the processes with the stores of user code, and with a record of the
  page each process had when it launched another one. `Pages` is its invariant.
* `loads_and_resumes` is the result for runs from boot.
-/

namespace Ece391

open Transition

/-! ## A launch -/

/-- How many bytes of a file are loaded: the program page ends 3899392 bytes above 0x08048000. -/
def imageSize (img : FsImage) (inode : Word) : ℕ := min 3899392 (img.fileLength inode).toNat

/-- The process `i` has been launched from a file, to be entered at `eip`. -/
structure Loads (img : FsImage) (inode : Word) (i : Pid) (eip : Word) (k k' : Kernel) : Prop where
  free : k.procs.pcbStatusArray i = 0#8
  currPid : k'.procs.currPid = i
  cr3 : k'.procs.cr3 = i
  /-- The process finds the first bytes of the file at 0x08048000. -/
  loaded : ∀ j < imageSize img inode,
    k'.loadByte true (0x08048000#32 + BitVec.ofNat 32 j) = some (img.fileByte inode j)
  /-- User memory is unchanged outside the page of the process. -/
  frame : ∀ pa, ¬ ProgramFrame i pa → k'.procs.userByte pa = k.procs.userByte pa
  others : ∀ q, q ≠ i → k'.procs.progPage q = k.procs.progPage q
  /-- These pages are what the stores of `read_data` make of the old ones, one by one under the new
  page directory and without a page fault. -/
  stores : ((({ k with procs := k.procs.flushTlb i } : Kernel).storeBytes 0x08048000#32
    (img.fileByte inode) (imageSize img inode)).map fun k => k.procs.progPage) =
      some k'.procs.progPage
  /-- A file with a whole header gives the address of its first instruction in bytes 24 to 27. -/
  entry : 50 ≤ (img.fileLength inode).toNat → eip = Buffer.leWord (img.fileByte inode) 24

/-- The result of a call of `execute` that has launched a process: the call enters user mode, or
leaves the process to the scheduler, which enters user mode when it starts it. -/
def LaunchesAt (eip : Word) (r : ExecResult) (k' : Kernel) : Prop :=
  r = .userMode eip ∨
    r = .rootShellReady ∧ (k'.procs.pcbs k'.procs.currPid).shellFlag = true ∧
      (k'.procs.pcbs k'.procs.currPid).cmdEip = eip

/-- The call has launched the file its command names. -/
def LaunchesFile (env : Env) (command : Buffer) (k k' : Kernel) (eip : Word) : Prop :=
  ∃ cmd entry, parseCommand command = some cmd ∧
    env.img.readDentryByName cmd.filename = some entry ∧
    Loads env.img entry.inodeNum k'.procs.currPid eip k k'

section

variable {env : Env} {command stack : Buffer} {k k' : Kernel} {r : ExecResult} {cmd : Command}
  {prog : Program} {i : Pid} {eip : Word}

/-- What a launch does to user memory, from the globals it leaves. -/
theorem launchesFile_of_found (hcmd : parseCommand command = some cmd)
    (hfind : findProgram env.img cmd stack = .ok prog) (hfree : k.procs.pcbStatusArray i = 0#8)
    (hcurr : k'.procs.currPid = i) (hcr3 : k'.procs.cr3 = i)
    (hpages : k'.procs.progPage = Function.update k.procs.progPage i
      (loadProgram env.img prog.inodeNum (k.procs.progPage i)).2) :
    LaunchesFile env command k k' prog.progEip := by
  obtain ⟨-, -, entry, hentry, hinode, hbad, -⟩ := findProgram_eq_ok hfind
  subst hcurr
  rw [loadProgram_eq hbad, ← hinode] at hpages
  have hsize : imageSize env.img entry.inodeNum ≤ 3899392 := Nat.min_le_left _ _
  -- the stores end at or below 0x08400000
  have hstores : ({ k with procs := k.procs.flushTlb k'.procs.currPid } : Kernel).storeBytes
      0x08048000#32 (env.img.fileByte entry.inodeNum) (imageSize env.img entry.inodeNum) = _ :=
    Kernel.storeBytes_program progImageOffset rfl (by
      unfold progImageOffset
      omega)
  refine ⟨cmd, entry, hcmd, hentry, hfree, rfl, hcr3, fun j hj => ?_, fun pa hpa => ?_,
    fun q hq => ?_, ?_, ?_⟩
  · -- byte `j` of the file
    have hva : (0x08048000#32 + BitVec.ofNat 32 j).toNat = 0x08000000 + (progImageOffset + j) := by
      have hofNat : (BitVec.ofNat 32 j).toNat = j := FsImage.toNat_ofNat_of_lt (by omega)
      rw [BitVec.toNat_add, hofNat]
      show (0x08048000 + j) % 2 ^ 32 = 0x08000000 + (0x48000 + j)
      omega
    have hprogram : ProgramAddr (0x08048000#32 + BitVec.ofNat 32 j) := by
      unfold ProgramAddr
      rw [hva]
      unfold progImageOffset
      omega
    rw [Kernel.loadByte_program hprogram, hcr3, hpages, Function.update_self, hva,
      Nat.add_sub_cancel_left]
    exact congrArg some (Buffer.splice_of_lt _ _ _ _ hj)
  · unfold Procs.userByte
    cases howner : frameOwner pa with
    | none => rfl
    | some p =>
      have hne : p ≠ k'.procs.currPid := by
        rintro rfl
        exact hpa (frameOwner_eq_some.mp howner)
      rw [Option.map_some, Option.map_some, hpages, Function.update_of_ne hne]
  · rw [hpages, Function.update_of_ne hq]
  · rw [hstores, hpages]
    rfl
  · intro hlong
    rw [hinode] at hlong ⊢
    exact progEip_of_findProgram hfind hlong

/-- Every launch loads the file into the page of the new process, and nothing else. -/
theorem execute_loads (h : execute env command stack k = some (r, k')) (hr : LaunchesAt eip r k') :
    LaunchesFile env command k k' eip := by
  unfold LaunchesAt at hr
  cases execute_cases h with
  -- the calls that return launch nothing
  | early => simp at hr
  | maximumProcesses => simp at hr
  | loadFail => simp at hr
  -- a shell that is left to the scheduler has its entry in `cmd_eip`
  | @rootShellReady cmd prog i _ hcmd hfind hfree _ hpage _ _ =>
    have heip : _ = eip := (hr.resolve_left (by simp)).2.2
    subst hpage
    rw [← heip]
    simp only [Procs.markShell, Procs.setPcb, Procs.fill, Function.update_self]
    exact launchesFile_of_found hcmd hfind hfree rfl rfl rfl
  | @root cmd prog _ _ hcmd hfind hfree _ hpage _ _ _ =>
    have heip : prog.progEip = eip := by simpa using hr
    subst hpage
    rw [← heip]
    exact launchesFile_of_found hcmd hfind hfree rfl rfl rfl
  | @child cmd prog _ _ _ hcmd hfind hfree _ hpage _ _ _ _ =>
    have heip : prog.progEip = eip := by simpa using hr
    subst hpage
    rw [← heip]
    exact launchesFile_of_found hcmd hfind hfree rfl rfl rfl

end

/-! ## Nested launches and exits -/

/-- The kernel, and the page each process had when it last launched another one. -/
structure PageState where
  kernel : Kernel
  left : Pid → Buffer

/-- What can happen. A system call that stores into the page of its caller is covered by stores. -/
inductive PageEvent
  | process (e : ProcessEvent)
  /-- The running process stores a byte, in user mode. -/
  | store (va : Word) (b : Byte)

/-- One step. -/
def pageStep (env : Env) (s : PageState) : PageEvent → Option PageState
  | .process (.execute command stack) =>
    (execute env command stack s.kernel).map fun (r, kernel) =>
      match r with
      | .userMode _ =>
        { kernel
          left := Function.update s.left s.kernel.procs.currPid
            (s.kernel.procs.progPage s.kernel.procs.currPid) }
      | _ => { s with kernel }
  | .process e => (processStep env s.kernel e).map fun kernel => { s with kernel }
  | .store va b => (s.kernel.storeByte true va b).map fun kernel => { s with kernel }

/-- An exit resumes the parent of the process: it runs on its own page, which is as it left it when
it launched the process. -/
def ResumesOwnPage (env : Env) (s : PageState) : PageEvent → Prop
  | .process (.halt status stack) => ∀ status' p k',
    halt env status stack s.kernel = some (.exitToShell status' p, k') →
      s.kernel.procs.parent s.kernel.procs.currPid = some p ∧ k'.procs.currPid = p ∧
      k'.procs.cr3 = p ∧ k'.procs.progPage p = s.left p ∧
      ∀ va, ProgramAddr va → k'.loadByte true va = some (s.left p (va.toNat - 0x08000000))
  | _ => True

/-- Every process that waits for another one has the page it left. -/
structure Pages (s : PageState) (S : Forest) : Prop extends Represents s.kernel.procs S where
  waiting : ∀ t, ∀ c ∈ S.stack t, ¬ IsRootPid c → ∀ q, s.kernel.procs.parent c = some q →
    s.kernel.procs.progPage q = s.left q

namespace Pages

variable {env : Env} {s s' : PageState} {S S' : Forest} {k' : Kernel} {e : PageEvent}

/-- A step that changes no page but that of the running process or of a free one. -/
theorem congr (h : Pages s S) (hrep : Represents k'.procs S')
    (hmem : ∀ t, ∀ c ∈ S'.stack t, ¬ IsRootPid c → c ∈ S.stack t)
    (hparent : ∀ t, ∀ c ∈ S'.stack t, ¬ IsRootPid c →
      k'.procs.parent c = s.kernel.procs.parent c)
    (hpage : ∀ q, q ≠ s.kernel.procs.currPid → S.Mem q →
      k'.procs.progPage q = s.kernel.procs.progPage q) :
    Pages { s with kernel := k' } S' where
  toRepresents := hrep
  waiting t c hc hroot q hq := by
    have hc' := hmem t c hc hroot
    rw [hparent t c hc hroot] at hq
    have hwaits := h.waiting t c hc' hroot q hq
    rw [← hwaits]
    -- a process that waits is not the running one, whose page may change
    exact hpage q (h.parent_ne_currPid hc' hroot hq) ⟨t, h.parent_mem hc' hroot hq⟩

/-- A store of user code reaches no page but that of the running process. -/
theorem store (h : Pages s S) {va : Word} {b : Byte}
    (hstore : s.kernel.storeByte true va b = some k') : Pages { s with kernel := k' } S := by
  have hvideo : s.kernel.procs.pageTable s.kernel.procs.cr3 < 0x800 := by
    have hmapping : s.kernel.procs.pageTable s.kernel.procs.cr3 = _ := h.videoMapping
    rw [hmapping]
    unfold videoPage
    omega
  -- a user-mode store reaches the page, or the video page
  by_cases hva : ProgramAddr va
  · rw [Kernel.storeByte_program hva, Option.some.injEq] at hstore
    subst hstore
    refine h.congr (h.setPages _) (fun _ _ hc _ => hc) (fun _ _ _ _ => rfl) fun q hq _ => ?_
    exact Function.update_of_ne (h.cr3 ▸ hq) _ _
  · have hprocs := Kernel.procs_storeByte_other hvideo hva hstore
    refine h.congr (hprocs ▸ h.toRepresents) (fun _ _ hc _ => hc) (fun _ _ _ _ => ?_)
      fun _ _ _ => ?_ <;> rw [hprocs]

/-- A launch: the new process waits for nothing, and the page of the launching one is recorded. -/
theorem launch (h : Pages s S) {i : Pid} (hi : s.kernel.procs.pcbStatusArray i = 0#8)
    (page : Buffer) (cmd : Command) (e j : Word)
    (hprocs : k'.procs = (((s.kernel.procs.take i page).fill i cmd).enter i).block
      s.kernel.procs.currPid i e j) :
    ∃ S', Pages
      { kernel := k'
        left := Function.update s.left s.kernel.procs.currPid
          (s.kernel.procs.progPage s.kernel.procs.currPid) } S' := by
  have hmem := h.not_mem_of_free hi
  have hne : ∀ {t q}, q ∈ S.stack t → q ≠ i := by
    rintro t q hq rfl
    exact hmem ⟨t, hq⟩
  have hpages : k'.procs.progPage = Function.update s.kernel.procs.progPage i page := by
    rw [hprocs]
    rfl
  have hparent : ∀ p, k'.procs.parent p =
      if p = i then some s.kernel.procs.currPid else s.kernel.procs.parent p :=
    hprocs ▸ h.toRepresents.parent_launch hi page cmd _ _
  refine ⟨S.push s.kernel.procs.currTerm i hmem, hprocs ▸ h.toRepresents.launch hi page cmd e j,
    fun t c hc hroot q hq => ?_⟩
  show k'.procs.progPage q = Function.update s.left s.kernel.procs.currPid
    (s.kernel.procs.progPage s.kernel.procs.currPid) q
  rw [hpages]
  rw [hparent] at hq
  split_ifs at hq with hci
  · -- the launching process
    cases hq
    rw [Function.update_self, Function.update_of_ne (hne h.currPid_mem)]
  · -- a process that was waiting before
    have hc' : c ∈ S.stack t :=
      ((RootedStacks.mem_push_stack hmem).mp hc).resolve_left fun hno => hci hno.1
    rw [Function.update_of_ne (h.parent_ne_currPid hc' hroot hq),
      Function.update_of_ne (hne (h.parent_mem hc' hroot hq))]
    exact h.waiting t c hc' hroot q hq

theorem pageStep (hshell : ValidShell env.img) (h : Pages s S)
    (hstep : pageStep env s e = some s') :
    ∃ S', Pages s' S' := by
  cases e with
  | store va b =>
    obtain ⟨k', hstore, rfl⟩ := Option.map_eq_some_iff.mp hstep
    exact ⟨S, h.store hstore⟩
  | process e =>
    cases e with
    | execute command stack =>
      obtain ⟨⟨r, k'⟩, hx, rfl⟩ := Option.map_eq_some_iff.mp hstep
      rcases h.execute_cases h.newParent_eq hx with ⟨_, rfl, hprocs⟩ |
        ⟨_, _, i, page, -, -, -, hi, rfl, hprocs⟩ | ⟨cmd, _, i, page, -, hi, rfl, hprocs⟩
      · refine ⟨S, h.congr (hprocs ▸ h.toRepresents) (fun _ _ hc _ => hc) (fun _ _ _ _ => ?_)
          fun _ _ _ => ?_⟩ <;> rw [hprocs]
      · -- the page of a free process has changed
        refine ⟨S, h.congr (hprocs ▸ h.toRepresents.leak hi page) (fun _ _ hc _ => hc)
          (fun _ _ _ _ => ?_) fun q _ hq => ?_⟩ <;> rw [hprocs]
        · rfl
        · refine Function.update_of_ne ?_ _ _
          rintro rfl
          exact h.not_mem_of_free hi hq
      · exact h.launch hi page cmd _ _ hprocs
    | halt status stack =>
      obtain ⟨k', hk', rfl⟩ := Option.map_eq_some_iff.mp hstep
      obtain ⟨⟨r, _⟩, hx, rfl⟩ := Option.map_eq_some_iff.mp hk'
      rcases h.toRepresents.halt_cases hshell hx with ⟨hroot, cmd, eip, page, rfl, hprocs⟩ |
        ⟨hroot, parent, l, hstack, hwalk, rfl, hprocs⟩
      · -- the new root shell has the page of the old one
        refine ⟨S, h.congr (hprocs ▸ h.toRepresents.respawn hroot page cmd) (fun _ _ hc _ => hc)
          (fun _ c _ hcroot => ?_) fun q hq _ => ?_⟩ <;> dsimp only <;> rw [hprocs]
        · have hne : c ≠ s.kernel.procs.currPid := by
            rintro rfl
            exact hcroot hroot
          rw [Procs.parent_enter, Procs.parent_fill, if_neg hne]
          rfl
        · exact Function.update_of_ne hq _ _
      · have hlen : 1 < (S.stack s.kernel.procs.currTerm).length := by simp [hstack]
        refine ⟨_, h.congr (hprocs ▸ h.toRepresents.leave hstack hwalk hlen)
          (fun _ _ hc _ => RootedStacks.mem_of_mem_pop_stack hlen hc) (fun _ _ _ _ => ?_)
          fun _ _ _ => ?_⟩ <;> dsimp only <;> rw [hprocs] <;> rfl
    | tick esp =>
      cases hstep
      refine ⟨S, h.congr (h.toRepresents.contextSwitch esp) (fun _ _ hc _ => hc)
        (fun _ c _ _ => ?_) fun _ _ _ => ?_⟩ <;> rw [procs_contextSwitch] <;> split_ifs
      · exact Procs.parent_interrupt ..
      · rw [Procs.parent_switchTo, Procs.parent_interrupt]
      · rfl
      · rfl
    | switchTerm t =>
      cases hstep
      refine ⟨S, h.congr (h.toRepresents.switchTerm t) (fun _ _ hc _ => hc)
        (fun _ _ _ _ => ?_) fun _ _ _ => ?_⟩ <;> rw [procs_switchTerm] <;> split_ifs <;> rfl

/-- The process an exit resumes has the page it left. -/
theorem resumesOwnPage (hshell : ValidShell env.img) (h : Pages s S) (e : PageEvent) :
    ResumesOwnPage env s e := by
  unfold ResumesOwnPage
  split
  · rename_i status stack
    intro status' p k' hx
    rcases h.toRepresents.halt_cases hshell hx with ⟨-, _, _, _, hr, -⟩ |
      ⟨hroot, parent, l, hstack, hwalk, hr, hprocs⟩
    · cases hr
    · cases hr
      obtain ⟨q, _, hstack', hparent, -⟩ := h.toRepresents.stack_of_child hroot
      obtain rfl := (List.cons.inj (List.cons.inj (hstack.symm.trans hstack')).2).1
      have hpid : (s.kernel.procs.pcbs p).thePid = p :=
        h.thePid s.kernel.procs.currTerm p (by simp [hstack])
      have hcurr : k'.procs.currPid = p := by
        rw [hprocs]
        exact hpid
      have hcr3 : k'.procs.cr3 = p := by
        rw [hprocs]
        exact hpid
      have hpage : k'.procs.progPage p = s.left p := by
        rw [hprocs]
        exact h.waiting _ _ h.currPid_mem hroot p hparent
      refine ⟨hparent, hcurr, hcr3, hpage, fun va hva => ?_⟩
      rw [Kernel.loadByte_program hva, hcr3, hpage]
  · trivial

end Pages

/-- Every launch of a command that fits (`shortCommand_of_execute`) copies the first bytes of the
file to the page of the new process, changes no other user memory, and enters the process at the
address in bytes 24 to 27 of the file. In every run from boot, whatever such commands launch and
whatever is left in between, a process that an exit resumes runs on its own page, as it left it. -/
theorem loads_and_resumes {env : Env} {ram : BootRam} {r₀ : ExecResult} {k₀ : Kernel}
    (hshell : ValidShell env.img) (hentry : entry env ram = some (r₀, k₀)) :
    (∀ command stack k r k' eip, execute env command stack k = some (r, k') →
      LaunchesAt eip r k' → LaunchesFile env command k k' eip) ∧
    ∀ left es, Along (pageStep env) (ResumesOwnPage env) { kernel := k₀, left } es := by
  refine ⟨fun command stack k r k' eip => execute_loads, fun left es => ?_⟩
  have hspec := entry_spec hshell hentry
  have hstart : Pages { kernel := k₀, left } bootForest := by
    refine ⟨hspec.exact.toRepresents, fun t c hc hroot => ?_⟩
    obtain rfl := List.mem_singleton.mp hc
    exact absurd (isRootPid_rootPid t) hroot
  refine along_of_invariant (I := fun s => ∃ S, Pages s S) ?_ ?_ ⟨bootForest, hstart⟩
    (along_of_forall (P := fun _ => True) (fun _ _ => trivial) _)
  · rintro s e s' ⟨S, hS⟩ - hstep
    exact hS.pageStep hshell hstep
  · rintro s e ⟨S, hS⟩ -
    exact hS.resumesOwnPage hshell e

/-- The root shell of terminal 0 launches a shell, which changes its page, launches a third one, and
is resumed by the exit of that. -/
theorem loads_and_resumes_sample :
    ∃ r k₀ k, entry sampleEnv zeroRam = some (r, k₀) ∧
      execute sampleEnv (commandLine "shell") (fun _ => 0#8) k₀ =
        some (.userMode 0x08048000#32, k) ∧
      LaunchesFile sampleEnv (commandLine "shell") k₀ k 0x08048000#32 ∧
      Along (pageStep sampleEnv) (ResumesOwnPage sampleEnv) { kernel := k₀, left := fun _ _ => 0#8 }
        [.process (.execute (commandLine "shell") fun _ => 0#8), .store 0x08100000#32 7#8,
          .process (.execute (commandLine "shell") fun _ => 0#8), .store 0x08100000#32 9#8,
          .process (.halt 0#8 fun _ => 0#8)] := by
  have hrun : (entry sampleEnv zeroRam).any fun x =>
      (execute sampleEnv (commandLine "shell") (fun _ => 0#8) x.2).any fun y =>
        decide (y.1 = .userMode 0x08048000#32) := by
    decide +kernel
  simp only [Option.any_eq_true, decide_eq_true_eq] at hrun
  obtain ⟨⟨r, k₀⟩, hentry, ⟨_, k⟩, hx, rfl⟩ := hrun
  obtain ⟨hloads, halong⟩ := loads_and_resumes validShell_sampleImage hentry
  exact ⟨r, k₀, k, hentry, hx, hloads _ _ _ _ _ _ hx (Or.inl rfl), halong _ _⟩

end Ece391
