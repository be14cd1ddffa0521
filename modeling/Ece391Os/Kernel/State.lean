import Ece391Os.FileSystem.Image
import Ece391Os.Kernel.I8259

/-!
# The state of the kernel

The globals the process, scheduling and terminal code reads and writes, grouped by the files that
own them.

* `Procs`: the process table, the PCBs, the task list, the TSS and the paging state.
* `Console`: the terminals and the video memory.
* `Keyboard`: the modifier flags of the scancode decoder.
* `Env` holds what never changes after boot: the file-system image, and the layout facts that the
  C source leaves to the compiler and the linker.

Fixed-size arrays are functions from their index type, so an index out of range cannot be written
down. Where the source can leave an array (the search of `pcb_status_array`, an index into
`terminal_buf`) the model keeps the unbounded index.
-/

namespace Ece391

/-- A process id: an index of `pcb_status_array`, `pcb_ptr_array`, `page_directory`. -/
abbrev Pid := Fin 6

/-- A terminal: an index of `terminal` and `terms`. -/
abbrev TermId := Fin 3

-- The literals of `Pid`, `TermId` and of a descriptor number all take the same proof.
instance pid_neZero : NeZero 6 := ⟨by decide⟩
instance termId_neZero : NeZero 3 := ⟨by decide⟩
instance fd_neZero : NeZero 8 := ⟨by decide⟩

/-- The three tables of file operations. -/
inductive OpsTable
  | terminal
  | rtc
  | fileSystem
  deriving DecidableEq, Repr

/-- `filesys_desc_t`; a null `file_ops_table_ptr` is `none`. -/
@[ext]
structure FilesysDesc where
  fileOpsTablePtr : Option OpsTable
  inodePtr : Word
  filePos : Word
  flags : Word
  deriving DecidableEq

/-- `pcb_t`. The pointer `parent_pcb` is the pid whose PCB it points to, `none` when null. -/
structure Pcb where
  filesysDescArray : Fin 8 → FilesysDesc
  /-- The memory from the field `args` on: bytes 0 to 128 are the field. -/
  args : Buffer
  theEsp : Word
  theSs : Word
  parentPcb : Option Pid
  thePid : Pid
  shellFlag : Bool
  greatEsp : Word
  cmdEip : Word
  filename : List Byte

/-- `task_t`, an element of the circular list the scheduler walks. -/
structure Task where
  pid : Pid
  term : TermId
  next : TermId
  active : Bool

/-- `list_t` -/
structure TaskList where
  head : TermId
  tail : TermId

/-- The fields of the TSS the processor reads on a change to ring 0. -/
structure Tss where
  esp0 : Word
  ss0 : BitVec 16

/-- The globals of `syscall.c`, `schedule.c`, `paging.c` and the frame table of `sys_call.S`. -/
structure Procs where
  pcbStatusArray : Pid → Byte
  pcbs : Pid → Pcb
  currPid : Pid
  currTerm : TermId
  activeProcNum : Byte
  activeRootShell : Byte
  terminal : TermId → Task
  taskList : TaskList
  tss : Tss
  /-- The process whose page directory is loaded in CR3. -/
  cr3 : Pid
  /-- `page_table[p][VIDEO_MEM_PTE_INDEX].phys_page_addr` -/
  pageTable : Pid → ℕ
  shellEspArray : Pid → Word
  /-- The 4 MB program page of each process, mapped at 0x08000000. -/
  progPage : Pid → Buffer

/-- `term_t` -/
structure Term where
  pid : Pid
  /-- The memory around `terminal_buf`: indices 0 to 127 are the array. -/
  terminalBuf : ℤ → Byte
  terminalCnt : ℤ
  terminalReadOn : Bool
  screenX : ℤ
  screenY : ℤ

/-- A 4 KB page of physical video memory. -/
abbrev Page := Buffer

/-- The terminals, the video memory by physical page number, and the CRT controller's registers. -/
structure Console where
  terms : TermId → Term
  termOnScreen : TermId
  vram : ℕ → Page
  crtc : Byte → Byte
  logingPassword : Bool

/-- The modifier flags of `terminal.c`. -/
structure Keyboard where
  capsLockOn : Bool
  lShiftOn : Bool
  rShiftOn : Bool
  ctrlReady : Bool
  altOn : Bool
  deriving DecidableEq

/-- The kernel's globals. -/
structure Kernel where
  procs : Procs
  con : Console
  kbd : Keyboard
  pic : I8259

/-- What stays fixed after boot. -/
structure Env where
  img : FsImage
  /-- The byte the linker places behind `pcb_status_array`. -/
  statusAfter : Byte
  /-- The bytes behind the table `characters`. -/
  charactersAfter : Buffer
  /-- The bytes behind the string `"shell"` of `kernel.c`. -/
  entryShellAfter : Buffer
  /-- The bytes behind the string `"shell"` of `syscall.c`. -/
  haltShellAfter : Buffer
  /-- The bytes of kernel stack between `tss.esp0` and the `esp` that `execute` saves: the interrupt
  frame, the pushes of `sys_call_handler`, and the frame the compiler gives `execute`. -/
  executeFrame : Word
  /-- The frame is not empty: the processor alone pushes five words. -/
  executeFrame_ne : executeFrame ≠ 0#32
  /-- The bytes `jump_to_program` pushes below that before it saves its own `esp`. -/
  jumpFrame : Word

/-- `KERNEL_DS` -/
def kernelDs : BitVec 16 := 0x18#16

/-- The top of a process's kernel stack, `0x00800000 - 0x00002000*pid - 0x4`. -/
def kernelStackTop (pid : Pid) : Word := BitVec.ofNat 32 (0x00800000 - 0x00002000 * pid - 0x4)

/-- The pids of the root shells are those below 3. -/
abbrev IsRootPid (pid : Pid) : Prop := pid.val < 3

/-- The root shell of a terminal. -/
def rootPid (t : TermId) : Pid := ⟨t.val, by omega⟩

@[simp]
theorem rootPid_val (t : TermId) : (rootPid t).val = t.val := rfl

theorem isRootPid_rootPid (t : TermId) : IsRootPid (rootPid t) := t.isLt

/-- The video page of a terminal: `VIDEO_MEMORY_IN_PTE + 2*term`. -/
def videoPage (t : TermId) : ℕ := 0xB8 + 2 * t.val

theorem videoPage_injective : Function.Injective videoPage := by
  intro t t' h
  simp only [videoPage] at h
  exact Fin.ext (by omega)

end Ece391
