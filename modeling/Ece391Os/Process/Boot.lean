import Ece391Os.Process.Forest
import Mathlib.Tactic.FinCases

/-!
# Boot

The end of `entry` in `kernel.c`: the globals as the loader, `init_paging`, `init_schedule` and
`setup_terms` leave them, then three calls of `execute("shell")`. The first two leave the root
shells of terminals 1 and 2 to the scheduler, the third one enters user mode.

* `entry env ram` is the kernel that enters user mode; `ram` is what the memory and the devices hold
  that nothing has initialized.
* `entry_procs` computes it, and `entry_spec` says that it is the table of three root shells.
-/

namespace Ece391

/-- The memory and the device registers no code has written when `entry` launches the shells, and
the uninitialized arrays of its three calls of `execute`. -/
structure BootRam where
  pcbs : Pid → Pcb
  progPage : Pid → Buffer
  vram : ℕ → Page
  crtc : Byte → Byte
  pic : I8259
  stack1 : Buffer
  stack2 : Buffer
  stack3 : Buffer

/-- The process globals before the first launch: `init_paging` maps the video page of terminal `p`
for process `p`, and that of terminal 0 for the processes from 3 on. -/
def bootProcs (ram : BootRam) : Procs where
  pcbStatusArray := fun p => if p = 0 then 1#8 else 0#8
  pcbs := ram.pcbs
  currPid := 0
  currTerm := 0
  activeProcNum := 0#8
  activeRootShell := 0#8
  terminal := fun t => { pid := rootPid t, term := t, next := t + 1, active := t == 0 }
  taskList := { head := 0, tail := 2 }
  tss := { esp0 := 0x800000#32, ss0 := kernelDs }
  cr3 := 0
  pageTable := fun p => if p.val < 3 then 0xB8 + 2 * p.val else 0xB8
  shellEspArray := fun _ => 0#32
  progPage := ram.progPage

/-- The terminals before the first launch. -/
def bootConsole (ram : BootRam) : Console where
  terms := fun t =>
    { pid := rootPid t, terminalBuf := fun _ => 0#8, terminalCnt := 0, terminalReadOn := false,
      screenX := 0, screenY := 0 }
  termOnScreen := 0
  vram := ram.vram
  crtc := ram.crtc
  logingPassword := false

/-- The kernel before the first launch. The lines of the keyboard and of the clock are unmasked. -/
def bootKernel (ram : BootRam) : Kernel where
  procs := bootProcs ram
  con := bootConsole ram
  kbd :=
    { capsLockOn := false, lShiftOn := false, rShiftOn := false, ctrlReady := false,
      altOn := false }
  pic := (ram.pic.i8259Init.enableIrq 1#32).enableIrq 8#32

/-- `pcb_status_array[0]=0; flush_tlb(0)` -/
def Procs.freeZero (ps : Procs) : Procs :=
  { ps with pcbStatusArray := Function.update ps.pcbStatusArray 0 0#8, cr3 := 0 }

/-- The launches of `entry`, up to the jump of the last one to user mode. -/
def entry (env : Env) (ram : BootRam) : Option (ExecResult × Kernel) := do
  let shell := cString "shell" env.entryShellAfter
  let (_, k) ← execute env shell ram.stack1 (bootKernel ram)
  let (_, k) ← execute env shell ram.stack2 k
  let k := Kernel.clearVideo { k with procs := k.procs.freeZero }
  execute env shell ram.stack3 k

/-- Each terminal with its root shell alone. -/
def bootForest : Forest where
  stack t := [rootPid t]
  last _ := rfl
  nodup _ := List.nodup_singleton _
  disjoint t t' htt' p hp hp' := by
    rw [List.mem_singleton] at hp hp'
    have hval := congrArg Fin.val (hp.symm.trans hp')
    exact htt' (Fin.ext hval)

@[simp]
theorem Procs.pcbs_freeZero (ps : Procs) : ps.freeZero.pcbs = ps.pcbs := rfl

@[simp]
theorem Procs.shellFlag_fill (ps : Procs) (i p : Pid) (cmd : Command) :
    ((ps.fill i cmd).pcbs p).shellFlag = (ps.pcbs p).shellFlag := by
  by_cases h : p = i <;> simp [Procs.fill, Pcb.init, h]

theorem Procs.shellFlag_markShell (ps : Procs) (i p : Pid) (eip : Word) :
    ((ps.markShell i eip).pcbs p).shellFlag = if p = i then true else (ps.pcbs p).shellFlag := by
  by_cases h : p = i <;> simp [Procs.markShell, Procs.setPcb, h]

/-- A launch of the shell with fewer than two root shells running leaves one more to the scheduler;
the third one enters user mode. -/
theorem execute_shell_cases {env : Env} {rest stack : Buffer} {k k' : Kernel} {r : ExecResult}
    (hshell : ValidShell env.img) {i : Pid} (hroot : IsRootPid i)
    (hfree : k.procs.pcbStatusArray i = 0#8) (hfirst : ∀ j < i, k.procs.pcbStatusArray j ≠ 0#8)
    (hx : execute env (cString "shell" rest) stack k = some (r, k')) :
    ∃ (cmd : Command) (prog : Program) (page : Buffer),
      (k.procs.activeRootShell + 1#8 < 3#8 ∧ r = .rootShellReady ∧
        k'.procs = ((k.procs.take i page).fill i cmd).markShell i prog.progEip ∨
      ¬ k.procs.activeRootShell + 1#8 < 3#8 ∧ r = .userMode prog.progEip ∧
        k'.procs = ((k.procs.take i page).fill i cmd).enter i) ∧
      k'.con = k.con.setTerm k.procs.currTerm fun term => { term with pid := i } := by
  have hi : ∀ {j : Pid}, k.procs.pcbStatusArray j = 0#8 →
      (∀ m < j, k.procs.pcbStatusArray m ≠ 0#8) → j = i := by
    intro j hj hjfirst
    by_contra hne
    rcases lt_or_gt_of_ne hne with hlt | hgt
    · exact hfirst j hlt hj
    · exact hjfirst i hgt hfree
  have hone : ∀ page, (k.procs.take i page).activeRootShell = k.procs.activeRootShell + 1#8 := by
    intro page
    simp [Procs.take, hroot]
  cases execute_cases hx with
  | early hcmd hfind hk' =>
    obtain ⟨prog, hprog, -⟩ := findProgram_shell hshell hcmd stack
    rw [hprog] at hfind
    cases hfind
  | maximumProcesses hcmd hfind hbusy hk' => exact absurd hfree (hbusy i)
  | loadFail hcmd hfind hj hjfirst hpage hload =>
    obtain ⟨prog, hprog, hloads⟩ := findProgram_shell hshell hcmd stack
    rw [hprog] at hfind
    cases hfind
    exact absurd hload (hloads _)
  | rootShellReady hcmd hfind hj hjfirst hpage hload hready =>
    obtain rfl := hi hj hjfirst
    rw [hone] at hready
    exact ⟨_, _, _, Or.inl ⟨hready, rfl, rfl⟩, rfl⟩
  | root hcmd hfind hj hjfirst hpage hload hready hj' =>
    obtain rfl := hi hj hjfirst
    rw [hone] at hready
    exact ⟨_, _, _, Or.inr ⟨hready, rfl, rfl⟩, rfl⟩
  | child hcmd hfind hj hjfirst hpage hload hready hj' hparent =>
    obtain rfl := hi hj hjfirst
    exact absurd hroot hj'

/-- What `entry` has done when it enters user mode. -/
structure Entered (ram : BootRam) (r : ExecResult) (k : Kernel) : Prop where
  userMode : ∃ eip, r = .userMode eip
  exact : Exact k.procs bootForest
  currPid : k.procs.currPid = 0
  currTerm : k.procs.currTerm = 0
  esp0 : k.procs.tss.esp0 = kernelStackTop 0
  taskList : k.procs.taskList = (bootProcs ram).taskList
  terminal : k.procs.terminal = (bootProcs ram).terminal
  /-- The scheduler starts the root shells 1 and 2; process 0 runs. -/
  shellFlag : ∀ p, (k.procs.pcbs p).shellFlag =
    if p = 1 ∨ p = 2 then true else (ram.pcbs p).shellFlag
  /-- The console is as at boot, with the page of terminal 0 cleared. -/
  con : k.con = { bootConsole ram with
    vram := Function.update ram.vram 0xB8 (clearPage (ram.vram 0xB8)) }

/-- What a launch of the shell reads: the page it has loaded, its command and its first address. -/
structure ShellLaunch where
  page : Buffer
  cmd : Command
  eip : Word

/-- A root shell is left to the scheduler. -/
def Procs.ready (ps : Procs) (i : Pid) (l : ShellLaunch) : Procs :=
  ((ps.take i l.page).fill i l.cmd).markShell i l.eip

/-- The globals after the three launches. -/
def bootedProcs (ram : BootRam) (l₁ l₂ l₃ : ShellLaunch) : Procs :=
  (((((bootProcs ram).ready 1 l₁).ready 2 l₂).freeZero.take 0 l₃.page).fill 0 l₃.cmd).enter 0

section Booted

variable {ram : BootRam} {l₁ l₂ l₃ : ShellLaunch}

theorem pcbStatusArray_bootedProcs :
    (bootedProcs ram l₁ l₂ l₃).pcbStatusArray = fun p => if p.val < 3 then 1#8 else 0#8 := by
  have hupdates : (bootedProcs ram l₁ l₂ l₃).pcbStatusArray =
      Function.update (Function.update (Function.update (Function.update
        (fun p => if p = 0 then 1#8 else 0#8) 1 1#8) 2 1#8) 0 0#8) 0 1#8 := rfl
  rw [hupdates]
  funext p
  fin_cases p <;> rfl

theorem thePid_bootedProcs (p : Pid) :
    ((bootedProcs ram l₁ l₂ l₃).pcbs p).thePid =
      if p = 0 then 0 else if p = 2 then 2 else if p = 1 then 1 else (ram.pcbs p).thePid := by
  simp only [bootedProcs, Procs.ready, Procs.pcbs_enter, Procs.thePid_fill, Procs.pcbs_take,
    Procs.pcbs_freeZero, Procs.thePid_markShell]
  rfl

theorem shellFlag_bootedProcs (p : Pid) :
    ((bootedProcs ram l₁ l₂ l₃).pcbs p).shellFlag =
      if p = 1 ∨ p = 2 then true else (ram.pcbs p).shellFlag := by
  simp only [bootedProcs, Procs.ready, Procs.pcbs_enter, Procs.shellFlag_fill, Procs.pcbs_take,
    Procs.pcbs_freeZero, Procs.shellFlag_markShell]
  show (if p = 2 then true else if p = 1 then true else (ram.pcbs p).shellFlag) = _
  by_cases h1 : p = 1 <;> by_cases h2 : p = 2 <;> simp [h1, h2]

theorem pageTable_bootedProcs :
    (bootedProcs ram l₁ l₂ l₃).pageTable =
      Function.update (bootProcs ram).pageTable 0 (videoPage 0) := rfl

/-- They are the table of three root shells. -/
theorem exact_bootedProcs : Exact (bootedProcs ram l₁ l₂ l₃) bootForest := by
  have hlayout : Layout (bootedProcs ram l₁ l₂ l₃) bootForest := by
    constructor
    case walk => exact fun t => .stop t.isLt
    case busy =>
      intro t p hp
      obtain rfl := List.mem_singleton.mp hp
      rw [pcbStatusArray_bootedProcs]
      simp only [rootPid_val, t.isLt, if_true]
      decide
    case thePid =>
      intro t p hp
      obtain rfl := List.mem_singleton.mp hp
      rw [thePid_bootedProcs]
      fin_cases t <;> rfl
    case mapped =>
      intro t p hp
      obtain rfl := List.mem_singleton.mp hp
      rw [pageTable_bootedProcs]
      fin_cases t <;> rfl
    case currPid => rfl
    case cr3 => rfl
    case activeRootShell => rfl
    case term => exact fun t => rfl
  refine ⟨⟨hlayout, rfl⟩, fun p hp => ?_⟩
  -- the busy processes are the first three
  rw [pcbStatusArray_bootedProcs] at hp
  have hlt : p.val < 3 := by
    by_contra hge
    exact hp (if_neg hge)
  exact ⟨⟨p.val, hlt⟩, List.mem_singleton.mpr rfl⟩

end Booted

/-- The first two launches leave processes 1 and 2 to the scheduler; the third one takes process 0,
which has been freed. -/
theorem entry_procs {env : Env} {ram : BootRam} {r : ExecResult} {k : Kernel}
    (hshell : ValidShell env.img) (h : entry env ram = some (r, k)) :
    ∃ l₁ l₂ l₃, r = .userMode l₃.eip ∧ k.procs = bootedProcs ram l₁ l₂ l₃ ∧
      k.con = { bootConsole ram with
        vram := Function.update ram.vram 0xB8 (clearPage (ram.vram 0xB8)) } := by
  obtain ⟨⟨r₁, k₁⟩, h₁, h⟩ := Option.bind_eq_some_iff.mp h
  obtain ⟨⟨r₂, k₂⟩, h₂, h₃⟩ := Option.bind_eq_some_iff.mp h
  -- process 0 is busy from the start, and frees itself before the last launch
  have hbusy₁ : ∀ j < (1 : Pid), (bootKernel ram).procs.pcbStatusArray j ≠ 0#8 := by
    show ∀ j < (1 : Pid), (if j = 0 then 1#8 else 0#8) ≠ 0#8
    decide
  obtain ⟨cmd₁, prog₁, page₁, hcase₁, hcon₁⟩ := execute_shell_cases hshell (by decide) rfl hbusy₁ h₁
  obtain ⟨-, -, hprocs₁⟩ := hcase₁.resolve_right fun hno =>
    hno.1 (show (0#8 : Byte) + 1#8 < 3#8 by decide)
  change k₁.procs = (bootProcs ram).ready 1 ⟨page₁, cmd₁, prog₁.progEip⟩ at hprocs₁
  have hbusy₂ : ∀ j < (2 : Pid), k₁.procs.pcbStatusArray j ≠ 0#8 := by
    rw [hprocs₁]
    show ∀ j < (2 : Pid), Function.update (fun p => if p = 0 then 1#8 else 0#8) 1 1#8 j ≠ 0#8
    decide
  have hfree₂ : k₁.procs.pcbStatusArray 2 = 0#8 := by
    rw [hprocs₁]
    rfl
  obtain ⟨cmd₂, prog₂, page₂, hcase₂, hcon₂⟩ :=
    execute_shell_cases hshell (by decide) hfree₂ hbusy₂ h₂
  obtain ⟨-, -, hprocs₂⟩ := hcase₂.resolve_right fun hno => by
    rw [hprocs₁] at hno
    exact hno.1 (show (0#8 + 1#8 : Byte) + 1#8 < 3#8 by decide)
  change k₂.procs = k₁.procs.ready 2 ⟨page₂, cmd₂, prog₂.progEip⟩ at hprocs₂
  rw [hprocs₁] at hprocs₂
  have hfree₃ : (Kernel.clearVideo { k₂ with procs := k₂.procs.freeZero }).procs.pcbStatusArray 0 =
      0#8 := rfl
  obtain ⟨cmd₃, prog₃, page₃, hcase₃, hcon₃⟩ := execute_shell_cases hshell (by decide) hfree₃
    (fun j hj => absurd hj (Fin.not_lt_zero j)) h₃
  obtain ⟨-, hr, hprocs₃⟩ := hcase₃.resolve_left fun hno => by
    have hlt : k₂.procs.activeRootShell + 1#8 < 3#8 := hno.1
    rw [hprocs₂] at hlt
    exact absurd (show (0#8 + 1#8 + 1#8 : Byte) + 1#8 < 3#8 from hlt) (by decide)
  refine ⟨⟨page₁, cmd₁, prog₁.progEip⟩, ⟨page₂, cmd₂, prog₂.progEip⟩,
    ⟨page₃, cmd₃, prog₃.progEip⟩, hr, ?_, ?_⟩
  · rw [hprocs₃]
    simp only [Kernel.procs_clearVideo, hprocs₂]
    rfl
  · -- the pid of terminal 0 has gone from 1 to 2 to 0, and its cursor is back at the origin
    have hmapping : k₂.procs.freeZero.videoMapping = 0xB8 := by
      rw [hprocs₂]
      rfl
    have hterm₁ : k₁.procs.currTerm = 0 := by
      rw [hprocs₁]
      rfl
    have hterm₂ : k₂.procs.currTerm = 0 := by
      rw [hprocs₂]
      rfl
    have hterm : (Kernel.clearVideo { k₂ with procs := k₂.procs.freeZero }).procs.currTerm = 0 :=
      hterm₂
    rw [hcon₃, hterm]
    simp only [Kernel.clearVideo, hmapping, hcon₂, hterm₁, hcon₁, Console.setTerm,
      Console.resetCursor, bootKernel, bootConsole, bootProcs]
    congr 1
    funext t
    fin_cases t <;> rfl

theorem entry_spec {env : Env} {ram : BootRam} {r : ExecResult} {k : Kernel}
    (hshell : ValidShell env.img) (h : entry env ram = some (r, k)) : Entered ram r k := by
  obtain ⟨l₁, l₂, l₃, hr, hprocs, hcon⟩ := entry_procs hshell h
  constructor
  case userMode => exact ⟨_, hr⟩
  case exact =>
    rw [hprocs]
    exact exact_bootedProcs
  case shellFlag =>
    rw [hprocs]
    exact shellFlag_bootedProcs
  case con => exact hcon
  all_goals
    rw [hprocs]
    rfl

/-! ## A small system -/

/-- An image with three files: a program `shell` of 52 bytes, `empty` without any bytes, and a text
`note` of 5 bytes. -/
def sampleImage : FsImage where
  filesystemBase := 0#32
  mem := memoryOf
    [(0, [3#8, 0#8, 0#8, 0#8, 3#8, 0#8, 0#8, 0#8, 2#8]),
      (64, ascii "shell"), (96, [2#8]),
      (128, ascii "empty"), (160, [2#8, 0#8, 0#8, 0#8, 1#8]),
      (192, ascii "note"), (224, [2#8, 0#8, 0#8, 0#8, 2#8]),
      (4096, [52#8]), (12288, [5#8, 0#8, 0#8, 0#8, 1#8]),
      (16384, elfMagic ++ List.replicate 20 0#8 ++ [0x00#8, 0x80#8, 0x04#8, 0x08#8]),
      (20480, ascii "hello")]

theorem validShell_sampleImage : ValidShell sampleImage where
  exists_file := by
    refine ⟨sampleImage.dentry 0, ?_, ?_, ?_, ?_⟩ <;> decide +kernel

/-- The sample image in a kernel linked with zeros behind its arrays and strings. -/
def sampleEnv : Env where
  img := sampleImage
  statusAfter := 0#8
  charactersAfter := fun _ => 0#8
  entryShellAfter := fun _ => 0#8
  haltShellAfter := fun _ => 0#8
  executeFrame := 0x1A0#32
  executeFrame_ne := by decide
  jumpFrame := 0x18#32

/-- A machine whose memory is zero at boot. -/
def zeroRam : BootRam where
  pcbs := fun _ =>
    { filesysDescArray := fun _ =>
        { fileOpsTablePtr := none, inodePtr := 0#32, filePos := 0#32, flags := 0#32 }
      args := fun _ => 0#8, theEsp := 0#32, theSs := 0#32, parentPcb := none, thePid := 0
      shellFlag := false, greatEsp := 0#32, cmdEip := 0#32, filename := [] }
  progPage := fun _ _ => 0#8
  vram := fun _ _ => 0#8
  crtc := fun _ => 0#8
  pic := { masterMask := 0#8, slaveMask := 0#8, out := [] }
  stack1 := fun _ => 0#8
  stack2 := fun _ => 0#8
  stack3 := fun _ => 0#8

theorem entry_sampleEnv : (entry sampleEnv zeroRam).isSome := by decide +kernel

/-- The ELF magic with zeros behind it. -/
def staleHeader : Buffer := Buffer.ofList elfMagic fun _ => 0#8

/-- A command line of a user program, with zeros behind it. -/
def commandLine (s : String) : Buffer := cString s fun _ => 0#8

end Ece391
