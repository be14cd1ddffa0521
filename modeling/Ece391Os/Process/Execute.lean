import Ece391Os.Terminal.Screen

/-!
# `execute`

`execute` of `syscall.c`, cut where the source is: reading the command, finding the program, taking
a process, filling its PCB, entering user mode.

* `parseCommand` is the two scans of the command line.
* `findProgram` is everything between the scans and the search for a free process. It only reads, so
  an early exit is a value of `ExecExit` that depends on the command, the image and the fifty bytes
  the local array `ELFheader` holds before it is filled.
* `startProgram` takes a process and launches the program in it.
* `execute_cases` says once what a call can do.

A step of the source that has no defined result is `none`: a fault of the console, a scan that runs
through the whole address space or stores behind its array, the search leaving `pcb_status_array`
for more than one entry, and a null `parent_pcb` being followed. The source checks the length of
`filename` after filling it and never that of `arg`, so that only a `ShortCommand` has a result
(`shortCommand_of_execute`). A `Command` carries the two bounds.
-/

namespace Ece391

/-- How `execute` returns without having launched a program. -/
inductive ExecExit
  | commandLengthIllegal
  | clear
  | noSuchFile
  | readDataFail
  | notElf
  | maximumProcesses
  | loadFail
  deriving DecidableEq, Repr

/-- How `execute` ends: it returns early, it leaves a root shell to be started by the scheduler, or
it jumps to a program. -/
inductive ExecResult
  | exit (e : ExecExit)
  | rootShellReady
  | userMode (eip : Word)
  deriving DecidableEq, Repr

namespace ExecResult

/-- The value `execute` returns to its caller, if it returns at all. -/
def retval : ExecResult → Option Word
  | exit .clear | exit .maximumProcesses | rootShellReady => some 0#32
  | exit _ => some (-1#32)
  | userMode _ => none

end ExecResult

/-! ## The command line -/

/-- What the two scans of `execute` leave in its local variables. They have stored inside the
arrays. -/
structure Command where
  cmdLeng : ℕ
  argLeng : ℕ
  filename : Buffer
  arg : Buffer
  cmdLeng_le : cmdLeng ≤ 32
  argLeng_le : argLeng ≤ 128

/-- `command[cmd_leng]=='\0' || command[cmd_leng]==' '` -/
def endsName (b : Byte) : Bool := b == 0#8 || b == 0x20#8

/-- The command from the byte behind its name's end on. -/
def behindName (command : Buffer) (cmdLeng : ℕ) : Buffer := fun j => command (j + cmdLeng + 1)

/-- The name has at most 32 bytes, and at most 128 bytes behind the byte that ends it there is a
NUL. -/
def ShortCommand (command : Buffer) : Prop :=
  ∃ n ≤ 32, endsName (command n) = true ∧ (∀ j < n, endsName (command j) = false) ∧
    ∃ m ≤ 128, behindName command n m = 0#8

/-- The two scans of the command. The second one starts behind the byte that ended the first.
Neither looks at the size of its array. -/
def parseCommand (command : Buffer) : Option Command := do
  let cmdLeng ← command.scan endsName
  let argLeng ← (behindName command cmdLeng).scan fun b => b == 0#8
  if h : cmdLeng ≤ 32 ∧ argLeng ≤ 128 then
    some
      { cmdLeng
        argLeng
        filename := Buffer.overwrite (fun _ => 0#8) command cmdLeng
        arg := Buffer.overwrite (fun _ => 0#8) (behindName command cmdLeng) argLeng
        cmdLeng_le := h.1
        argLeng_le := h.2 }
  -- a store behind `filename[32]` or `arg[128]`
  else none

/-- What the scans have found: where the name ends, and the first NUL behind that byte. -/
theorem parseCommand_eq_some {command : Buffer} {cmd : Command}
    (h : parseCommand command = some cmd) :
    command.scan endsName = some cmd.cmdLeng ∧
      ((behindName command cmd.cmdLeng).scan fun b => b == 0#8) = some cmd.argLeng ∧
      cmd.filename = Buffer.overwrite (fun _ => 0#8) command cmd.cmdLeng ∧
      cmd.arg = Buffer.overwrite (fun _ => 0#8) (behindName command cmd.cmdLeng) cmd.argLeng := by
  obtain ⟨cmdLeng, hcmd, h⟩ := Option.bind_eq_some_iff.mp h
  obtain ⟨argLeng, harg, h⟩ := Option.bind_eq_some_iff.mp h
  split_ifs at h
  cases h
  exact ⟨hcmd, harg, rfl, rfl⟩

/-- The scans stop inside their arrays exactly for a command that fits. -/
theorem parseCommand_isSome_iff {command : Buffer} :
    (parseCommand command).isSome = true ↔ ShortCommand command := by
  constructor
  · intro h
    obtain ⟨cmd, hcmd⟩ := Option.isSome_iff_exists.mp h
    obtain ⟨hname, hargs, -⟩ := parseCommand_eq_some hcmd
    obtain ⟨-, hend, hfirst⟩ := Buffer.scan_eq_some.mp hname
    obtain ⟨-, hnul, -⟩ := Buffer.scan_eq_some.mp hargs
    exact ⟨cmd.cmdLeng, cmd.cmdLeng_le, hend, fun j hj => Bool.not_eq_true _ ▸ hfirst j hj,
      cmd.argLeng, cmd.argLeng_le, beq_iff_eq.mp hnul⟩
  · rintro ⟨n, hn, hend, hfirst, m, hm, hnul⟩
    have hname : command.scan endsName = some n :=
      Buffer.scan_eq_some.mpr ⟨by omega, hend, fun j hj => by simp [hfirst j hj]⟩
    -- the second loop stops at the first NUL, which is not behind the one that there is
    obtain ⟨argLeng, hle, hargs⟩ := Buffer.exists_scan_le (behindName command n)
      (p := fun b => b == 0#8) (by omega) (beq_iff_eq.mpr hnul)
    simp only [parseCommand, hname, hargs, Option.bind_eq_bind, Option.bind_some]
    rw [dif_pos ⟨hn, by omega⟩]
    rfl

/-- A command that fits is read. -/
theorem ShortCommand.exists_parse {command : Buffer} (h : ShortCommand command) :
    ∃ cmd, parseCommand command = some cmd :=
  Option.isSome_iff_exists.mp (parseCommand_isSome_iff.mpr h)

/-! ## Finding the program -/

/-- The program a command names. -/
structure Program where
  inodeNum : Word
  progEip : Word

/-- The first four bytes of an ELF file. -/
def elfMagic : List Byte := [0x7F#8, 0x45#8, 0x4C#8, 0x46#8]

/-- The bytes compared with the ELF magic. -/
def HasMagic (header : Buffer) : Prop := header.bytesOf 0 4 = elfMagic

instance (header : Buffer) : Decidable (HasMagic header) := inferInstanceAs (Decidable (_ = _))

/-- The checks of `execute` up to `/* Fetch eip */`. `stack` is the memory of `ELFheader` before
`read_data` fills it. -/
def findProgram (img : FsImage) (cmd : Command) (stack : Buffer) : Except ExecExit Program :=
  if cmd.cmdLeng > 32 ∨ cmd.cmdLeng = 0 then .error .commandLengthIllegal
  else if strncmp (cString "clear" fun _ => 0#8) cmd.filename 5 = 0 then .error .clear
  else
    match img.readDentryByName cmd.filename with
    | none => .error .noSuchFile
    | some currEntry =>
      let (ret, header) := img.readData currEntry.inodeNum 0#32 stack 50#32
      if ret = -1#32 then .error .readDataFail
      else if ¬ HasMagic header then .error .notElf
      else .ok { inodeNum := currEntry.inodeNum, progEip := header.leWord 24 }

/-- The search `while (pcb_status_array[i]) i++`: the first free process, `none` for index 6. The
search ends at index 6 only when the byte behind the array is zero. -/
def findFree (status : Pid → Byte) (statusAfter : Byte) : Option (Option Pid) :=
  match (List.finRange 6).find? fun p => status p == 0#8 with
  | some p => some (some p)
  | none => if statusAfter = 0#8 then some none else none

/-! ## The process table -/

namespace Procs

/-- `flush_tlb` -/
def flushTlb (ps : Procs) (p : Pid) : Procs := { ps with cr3 := p }

/-- Assign the fields of a PCB. -/
def setPcb (ps : Procs) (p : Pid) (f : Pcb → Pcb) : Procs :=
  { ps with pcbs := Function.update ps.pcbs p (f (ps.pcbs p)) }

/-- Assign `terminal[t].pid`. -/
def setTaskPid (ps : Procs) (t : TermId) (p : Pid) : Procs :=
  { ps with terminal := Function.update ps.terminal t { ps.terminal t with pid := p } }

/-- The page mapped at the address `VIDEO`. -/
def videoMapping (ps : Procs) : ℕ := ps.pageTable ps.cr3

end Procs

/-- The descriptors of a new process: the terminal on 0 and 1, the others only marked free. -/
def initDescs (descs : Fin 8 → FilesysDesc) : Fin 8 → FilesysDesc := fun fd =>
  if fd.val < 2 then
    { fileOpsTablePtr := some .terminal, inodePtr := 0#32, filePos := 0#32, flags := 1#32 }
  else { descs fd with flags := 0#32 }

/-- The assignments of `execute` to the fields of `exec_pcb`. -/
def Pcb.init (pcb : Pcb) (i : Pid) (parent : Option Pid) (cmd : Command) : Pcb :=
  { pcb with
    thePid := i
    parentPcb := parent
    filename := cmd.filename.bytesOf 0 32
    args := (pcb.args.overwrite (fun _ => 0#8) 129).overwrite cmd.arg cmd.argLeng
    filesysDescArray := initDescs pcb.filesysDescArray }

/-- The offset of `0x08048000` in the program page. -/
def progImageOffset : ℕ := 0x48000

/-- `read_data` of the whole program to `0x08048000`: the return value and the program page. -/
def loadProgram (img : FsImage) (inode : Word) (page : Buffer) : Word × Buffer :=
  let (ret, image) := img.readData inode 0#32 (fun j => page (progImageOffset + j)) 3899392#32
  (ret, fun j => if j < progImageOffset then page j else image (j - progImageOffset))

/-- The load of a program fails: no byte of it has been read. -/
def LoadFails (img : FsImage) (inode : Word) (page : Buffer) : Prop :=
  (loadProgram img inode page).1 = -1#32 ∨ (loadProgram img inode page).1 = 0#32

instance (img : FsImage) (inode : Word) (page : Buffer) : Decidable (LoadFails img inode page) :=
  inferInstanceAs (Decidable (_ ∨ _))

/-! ## The call -/

namespace Kernel

/-- `printf` and `puts` on the terminal of the running process. -/
def puts (k : Kernel) (s : List Byte) : Option Kernel :=
  (k.con.puts k.procs.currTerm k.procs.videoMapping s).map fun con => { k with con }

/-- `enable_irq` -/
def enableIrq (k : Kernel) (irqNum : Word) : Kernel := { k with pic := k.pic.enableIrq irqNum }

/-- `disable_irq` -/
def disableIrq (k : Kernel) (irqNum : Word) : Kernel := { k with pic := k.pic.disableIrq irqNum }

/-- `send_eoi` -/
def sendEoi (k : Kernel) (irqNum : Word) : Kernel := { k with pic := k.pic.sendEoi irqNum }

@[simp]
theorem procs_enableIrq (k : Kernel) (n : Word) : (k.enableIrq n).procs = k.procs := rfl

@[simp]
theorem procs_disableIrq (k : Kernel) (n : Word) : (k.disableIrq n).procs = k.procs := rfl

@[simp]
theorem procs_sendEoi (k : Kernel) (n : Word) : (k.sendEoi n).procs = k.procs := rfl

@[simp]
theorem con_sendEoi (k : Kernel) (n : Word) : (k.sendEoi n).con = k.con := rfl

/-- The loop that blanks the page at `VIDEO`, and `reset_cursor`. -/
def clearVideo (k : Kernel) : Kernel :=
  { k with
    con := Console.resetCursor
      { k.con with
        vram := Function.update k.con.vram k.procs.videoMapping
          (clearPage (k.con.vram k.procs.videoMapping)) } }

@[simp]
theorem procs_clearVideo (k : Kernel) : k.clearVideo.procs = k.procs := rfl

end Kernel

/-- What `execute` prints before it returns early. -/
def ExecExit.message : ExecExit → List Byte
  | commandLengthIllegal => ascii "execute:command length illegal\n"
  | noSuchFile => ascii "execute:no such file\n"
  | readDataFail => ascii "execute:read data fail\n"
  | notElf => ascii "execute:not ELF\n"
  | maximumProcesses => ascii "MAXIMUM PROCESSES!!!\n"
  | clear | loadFail => []

/-- The early exits of `findProgram`: `clear` is a command of its own and unmasks IRQ 0, the others
print their message and return with IRQ 0 still masked. -/
def exitEarly (e : ExecExit) (k : Kernel) : Option Kernel :=
  if e = .clear then some (k.clearVideo.enableIrq 0#32) else k.puts e.message

namespace Procs

/-- `execute` takes process `i`: `flush_tlb(i)`, its status, the program loaded to its page. -/
def take (ps : Procs) (i : Pid) (page : Buffer) : Procs :=
  { ps with
    cr3 := i
    pcbStatusArray := Function.update ps.pcbStatusArray i 1#8
    progPage := Function.update ps.progPage i page
    activeRootShell := if IsRootPid i then ps.activeRootShell + 1#8 else ps.activeRootShell }

/-- The parent of the process being launched, after `active_proc_num += 1`. -/
def newParent (ps : Procs) : Option Pid :=
  if ps.activeProcNum + 1#8 > 3#8 then some ps.currPid else none

/-- `execute` fills the PCB of process `i` and makes it the current one. -/
def fill (ps : Procs) (i : Pid) (cmd : Command) : Procs :=
  { ps with
    activeProcNum := ps.activeProcNum + 1#8
    pcbs := Function.update ps.pcbs i ((ps.pcbs i).init i ps.newParent cmd)
    currPid := i }

/-- `execute` leaves the shell `i` to the scheduler. -/
def markShell (ps : Procs) (i : Pid) (eip : Word) : Procs :=
  ps.setPcb i fun pcb => { pcb with shellFlag := true, cmdEip := eip }

/-- The TSS and the mapping of the video page for process `i`. -/
def enter (ps : Procs) (i : Pid) : Procs :=
  { ps with
    tss := { esp0 := kernelStackTop i, ss0 := kernelDs }
    pageTable := Function.update ps.pageTable i (videoPage ps.currTerm)
    cr3 := i }

/-- Where a parent waits for process `i`: its `esp` inside `execute`, saved in its PCB, the `esp`
inside `jump_to_program`, and the task of the terminal. -/
def block (ps : Procs) (parent i : Pid) (currEsp jumpEsp : Word) : Procs :=
  { ps with
    pcbs := Function.update ps.pcbs parent
      { ps.pcbs parent with theEsp := currEsp, theSs := kernelDs.setWidth 32 }
    terminal := Function.update ps.terminal ps.currTerm
      { ps.terminal ps.currTerm with pid := i }
    shellEspArray := Function.update ps.shellEspArray (ps.pcbs parent).thePid jumpEsp }

end Procs

/-- The kernel with the PCB of process `i` filled. -/
def fillPcb (i : Pid) (cmd : Command) (k : Kernel) : Kernel :=
  { k with
    procs := k.procs.fill i cmd
    con := k.con.setTerm k.procs.currTerm fun term => { term with pid := i } }

/-- The end of `execute`: set the TSS, save the caller's stack in the parent's PCB, map the video
page, and jump to the program. `currEsp` is the `esp` of the call. -/
def enterUserMode (env : Env) (i : Pid) (eip currEsp : Word) (k : Kernel) :
    Option (ExecResult × Kernel) :=
  if IsRootPid i then
    some (.userMode eip, { k with procs := k.procs.enter i }.enableIrq 0#32)
  else do
    let parent ← (k.procs.pcbs i).parentPcb
    let ps := (k.procs.enter i).block parent i currEsp (currEsp - env.jumpFrame)
    some (.userMode eip, ({ k with procs := ps }.enableIrq 0#32).enableIrq 8#32)

/-- `execute` from the search for a free process on. -/
def startProgram (env : Env) (cmd : Command) (prog : Program) (k : Kernel) :
    Option (ExecResult × Kernel) := do
  match ← findFree k.procs.pcbStatusArray env.statusAfter with
  | none =>
    let k ← k.puts ExecExit.maximumProcesses.message
    some (.exit .maximumProcesses, k.enableIrq 0#32)
  | some i =>
    let ps := k.procs.take i (loadProgram env.img prog.inodeNum (k.procs.progPage i)).2
    if LoadFails env.img prog.inodeNum (k.procs.progPage i) then
      some (.exit .loadFail, { k with procs := ps.flushTlb ps.currPid }.enableIrq 0#32)
    else
      let k := fillPcb i cmd { k with procs := ps }
      if k.procs.activeRootShell < 3#8 then
        some (.rootShellReady, { k with procs := k.procs.markShell i prog.progEip })
      else
        -- the call runs below the `esp0` its caller entered the kernel with
        enterUserMode env i prog.progEip (k.procs.tss.esp0 - env.executeFrame) k

/-- `execute`. `stack` is what its uninitialized array `ELFheader` holds. -/
def execute (env : Env) (command stack : Buffer) (k : Kernel) : Option (ExecResult × Kernel) := do
  let k := k.disableIrq 0#32
  let cmd ← parseCommand command
  match findProgram env.img cmd stack with
  | .error e => (exitEarly e k).map fun k => (.exit e, k)
  | .ok prog => startProgram env cmd prog k

/-! ## What a call can do -/

theorem procs_puts {k k' : Kernel} {s : List Byte} (h : k.puts s = some k') :
    k'.procs = k.procs := by
  obtain ⟨con, -, rfl⟩ := Option.map_eq_some_iff.mp h
  rfl

theorem procs_exitEarly {e : ExecExit} {k k' : Kernel} (h : exitEarly e k = some k') :
    k'.procs = k.procs := by
  rw [exitEarly] at h
  split_ifs at h
  · cases h
    rfl
  · exact procs_puts h

/-- The search ends at the first free process. -/
theorem findFree_eq_some_some {status : Pid → Byte} {after : Byte} {i : Pid} :
    findFree status after = some (some i) ↔ status i = 0#8 ∧ ∀ j < i, status j ≠ 0#8 := by
  have hfind : (List.finRange 6).find? (fun p => status p == 0#8) = some i ↔
      status i = 0#8 ∧ ∀ j < i, status j ≠ 0#8 := by
    rw [List.find?_eq_some_iff_getElem]
    simp only [List.getElem_finRange, beq_iff_eq, Bool.not_eq_true', beq_eq_false_iff_ne]
    constructor
    · rintro ⟨hi, n, hn, rfl, hfirst⟩
      refine ⟨hi, fun j hj => ?_⟩
      exact hfirst j.val hj
    · rintro ⟨hi, hfirst⟩
      refine ⟨hi, i.val, by simp, rfl, fun j hj => ?_⟩
      exact hfirst ⟨j, by omega⟩ hj
  rw [findFree, ← hfind]
  -- with all six busy, the byte behind the array decides
  cases (List.finRange 6).find? (fun p => status p == 0#8) with
  | none => split_ifs <;> simp
  | some p => simp

/-- The search ends behind the table when every process is busy. -/
theorem findFree_eq_some_none {status : Pid → Byte} {after : Byte} :
    findFree status after = some none ↔ after = 0#8 ∧ ∀ j, status j ≠ 0#8 := by
  have hfind : (List.finRange 6).find? (fun p => status p == 0#8) = none ↔
      ∀ j, status j ≠ 0#8 := by
    simp [List.find?_eq_none]
  rw [findFree, ← hfind]
  cases (List.finRange 6).find? (fun p => status p == 0#8) with
  | none => split_ifs with h <;> simp [h]
  | some p => simp

/-- The cases of a call of `execute`, with what has been checked and what has been changed. -/
inductive Executes (env : Env) (command stack : Buffer) (k : Kernel) : ExecResult → Kernel → Prop
  | early {cmd : Command} {e : ExecExit} {k' : Kernel}
      (hcmd : parseCommand command = some cmd)
      (hfind : findProgram env.img cmd stack = .error e)
      (hk' : exitEarly e (k.disableIrq 0#32) = some k') :
      Executes env command stack k (.exit e) k'
  | maximumProcesses {cmd : Command} {prog : Program} {k' : Kernel}
      (hcmd : parseCommand command = some cmd)
      (hfind : findProgram env.img cmd stack = .ok prog)
      (hbusy : ∀ p, k.procs.pcbStatusArray p ≠ 0#8)
      (hk' : (k.disableIrq 0#32).puts ExecExit.maximumProcesses.message = some k') :
      Executes env command stack k (.exit .maximumProcesses) (k'.enableIrq 0#32)
  | loadFail {cmd : Command} {prog : Program} {i : Pid} {page : Buffer}
      (hcmd : parseCommand command = some cmd)
      (hfind : findProgram env.img cmd stack = .ok prog)
      (hfree : k.procs.pcbStatusArray i = 0#8)
      (hfirst : ∀ j < i, k.procs.pcbStatusArray j ≠ 0#8)
      (hpage : page = (loadProgram env.img prog.inodeNum (k.procs.progPage i)).2)
      (hload : LoadFails env.img prog.inodeNum (k.procs.progPage i)) :
      Executes env command stack k (.exit .loadFail)
        ({ k.disableIrq 0#32 with
          procs := (k.procs.take i page).flushTlb k.procs.currPid }.enableIrq 0#32)
  | rootShellReady {cmd : Command} {prog : Program} {i : Pid} {page : Buffer}
      (hcmd : parseCommand command = some cmd)
      (hfind : findProgram env.img cmd stack = .ok prog)
      (hfree : k.procs.pcbStatusArray i = 0#8)
      (hfirst : ∀ j < i, k.procs.pcbStatusArray j ≠ 0#8)
      (hpage : page = (loadProgram env.img prog.inodeNum (k.procs.progPage i)).2)
      (hload : ¬ LoadFails env.img prog.inodeNum (k.procs.progPage i))
      (hroot : (k.procs.take i page).activeRootShell < 3#8) :
      Executes env command stack k .rootShellReady
        { fillPcb i cmd { k.disableIrq 0#32 with procs := k.procs.take i page } with
          procs := ((k.procs.take i page).fill i cmd).markShell i prog.progEip }
  | root {cmd : Command} {prog : Program} {i : Pid} {page : Buffer}
      (hcmd : parseCommand command = some cmd)
      (hfind : findProgram env.img cmd stack = .ok prog)
      (hfree : k.procs.pcbStatusArray i = 0#8)
      (hfirst : ∀ j < i, k.procs.pcbStatusArray j ≠ 0#8)
      (hpage : page = (loadProgram env.img prog.inodeNum (k.procs.progPage i)).2)
      (hload : ¬ LoadFails env.img prog.inodeNum (k.procs.progPage i))
      (hroot : ¬ (k.procs.take i page).activeRootShell < 3#8)
      (hi : IsRootPid i) :
      Executes env command stack k (.userMode prog.progEip)
        ({ fillPcb i cmd { k.disableIrq 0#32 with procs := k.procs.take i page } with
          procs := ((k.procs.take i page).fill i cmd).enter i }.enableIrq 0#32)
  | child {cmd : Command} {prog : Program} {i parent : Pid} {page : Buffer}
      (hcmd : parseCommand command = some cmd)
      (hfind : findProgram env.img cmd stack = .ok prog)
      (hfree : k.procs.pcbStatusArray i = 0#8)
      (hfirst : ∀ j < i, k.procs.pcbStatusArray j ≠ 0#8)
      (hpage : page = (loadProgram env.img prog.inodeNum (k.procs.progPage i)).2)
      (hload : ¬ LoadFails env.img prog.inodeNum (k.procs.progPage i))
      (hroot : ¬ (k.procs.take i page).activeRootShell < 3#8)
      (hi : ¬ IsRootPid i) (hparent : (k.procs.take i page).newParent = some parent) :
      Executes env command stack k (.userMode prog.progEip)
        (({ fillPcb i cmd { k.disableIrq 0#32 with procs := k.procs.take i page } with
          procs := (((k.procs.take i page).fill i cmd).enter i).block parent i
            (k.procs.tss.esp0 - env.executeFrame)
            (k.procs.tss.esp0 - env.executeFrame - env.jumpFrame) }.enableIrq 0#32).enableIrq 8#32)

theorem execute_cases {env : Env} {command stack : Buffer} {k k' : Kernel} {r : ExecResult}
    (h : execute env command stack k = some (r, k')) : Executes env command stack k r k' := by
  obtain ⟨cmd, hcmd, h⟩ := Option.bind_eq_some_iff.mp h
  cases hfind : findProgram env.img cmd stack with
  -- an early exit, or a program has been found
  | error e =>
    simp only [hfind, Option.map_eq_some_iff, Prod.mk.injEq] at h
    obtain ⟨k₁, hk₁, rfl, rfl⟩ := h
    exact .early hcmd hfind hk₁
  | ok prog =>
    simp only [hfind] at h
    obtain ⟨found, hfound, h⟩ := Option.bind_eq_some_iff.mp h
    cases found with
    -- no free process, or the first one
    | none =>
      obtain ⟨-, hbusy⟩ := findFree_eq_some_none.mp hfound
      obtain ⟨k₁, hk₁, h⟩ := Option.bind_eq_some_iff.mp h
      cases h
      exact .maximumProcesses hcmd hfind hbusy hk₁
    | some i =>
      obtain ⟨hfree, hfirst⟩ := findFree_eq_some_some.mp hfound
      simp only at h
      split_ifs at h with hload hroot
      · cases h
        exact .loadFail hcmd hfind hfree hfirst rfl hload
      · cases h
        exact .rootShellReady hcmd hfind hfree hfirst rfl hload hroot
      · rw [enterUserMode] at h
        split_ifs at h with hi
        · cases h
          exact .root hcmd hfind hfree hfirst rfl hload hroot hi
        · obtain ⟨parent, hparent, h⟩ := Option.bind_eq_some_iff.mp h
          cases h
          -- the null parent of a process that is none of the root shells has been followed
          have hnew := hparent
          simp only [fillPcb, Procs.fill, Pcb.init, Function.update_self] at hnew
          exact .child hcmd hfind hfree hfirst rfl hload hroot hi hnew

/-- A call with a result has read its command inside the arrays. -/
theorem shortCommand_of_execute {env : Env} {command stack : Buffer} {k k' : Kernel}
    {r : ExecResult} (h : execute env command stack k = some (r, k')) : ShortCommand command := by
  obtain ⟨cmd, hcmd, -⟩ := Option.bind_eq_some_iff.mp h
  exact parseCommand_isSome_iff.mp (Option.isSome_iff_exists.mpr ⟨cmd, hcmd⟩)

/-- A call that has found a program and a free process, but nothing to load, returns -1 and keeps
the process. -/
theorem execute_loadFail {env : Env} {command stack : Buffer} {k : Kernel} {cmd : Command}
    {prog : Program} {i : Pid} (hcmd : parseCommand command = some cmd)
    (hfind : findProgram env.img cmd stack = .ok prog)
    (hfree : k.procs.pcbStatusArray i = 0#8)
    (hfirst : ∀ j < i, k.procs.pcbStatusArray j ≠ 0#8)
    (hload : LoadFails env.img prog.inodeNum (k.procs.progPage i)) :
    ∃ k' page, execute env command stack k = some (.exit .loadFail, k') ∧
      k'.procs = (k.procs.take i page).flushTlb k.procs.currPid := by
  have hfound : findFree k.procs.pcbStatusArray env.statusAfter = some (some i) :=
    findFree_eq_some_some.mpr ⟨hfree, hfirst⟩
  let page := (loadProgram env.img prog.inodeNum (k.procs.progPage i)).2
  refine ⟨{ k.disableIrq 0#32 with
    procs := (k.procs.take i page).flushTlb k.procs.currPid }.enableIrq 0#32, page, ?_, rfl⟩
  simp only [execute, hcmd, hfind, startProgram, Kernel.procs_disableIrq, hfound, hload,
    Option.bind_eq_bind, Option.bind_some, if_true]
  rfl

end Ece391
