import Ece391Os.Lib.Transition
import Ece391Os.Process.Loading

/-!
# The launch of a program, statement by statement

`execute` masks the timer only, so a key can interrupt it between any two of its statements.

* `LaunchVars` are the values its local variables have when it has found a program and a free
  process that is none of the root shells'. Up to that point it has masked the timer and changed
  nothing else.
* `launchProgram` are the statements from there to the one of `jump_to_program` that saves the stack
  pointer, which is the last one that changes a global.
* `LaunchKeeps`: what any number of them leave alone.
* `execute_eq_exec`: without an interrupt the statements together are `execute`.
-/

namespace Ece391

open Transition

/-- The local variables of `execute`, the file, and the stack pointers of the call. -/
structure LaunchVars where
  i : Pid
  cmd : Command
  progEip : Word
  image : Buffer
  imageSize : ℕ
  currEsp : Word
  jumpEsp : Word

/-- The fields of a descriptor that `execute` assigns for the terminal. -/
inductive DescField
  | fileOpsTablePtr
  | inodePtr
  | filePos
  | flags
  deriving DecidableEq

/-- An assignment to `exec_pcb`. -/
inductive PcbStmt
  | thePid
  | parentPcb
  | filenameClear
  | filenameCopy
  | argsClear
  | argsCopy
  | stdDesc (fd : Fin 8) (field : DescField)
  | freeDesc (fd : Fin 8)
  deriving DecidableEq

/-- A statement of `execute`. The two calls of `flush_tlb` take `i` and `curr_pid`. -/
inductive LaunchStmt
  | disableIrq
  | flushTlb
  | pcbStatus
  | load (j : ℕ)
  | activeProcNum
  | currPid
  | termsPid
  | pcb (stmt : PcbStmt)
  | tssSs0
  | tssEsp0
  | theEsp
  | theSs
  | pageTable
  | flushTlbCurr
  | terminalPid
  | enableIrq (irqNum : Word)
  | shellEsp
  deriving DecidableEq

/-- Assign a field of a descriptor of the terminal. -/
def DescField.set : DescField → FilesysDesc → FilesysDesc
  | fileOpsTablePtr, desc => { desc with fileOpsTablePtr := some .terminal }
  | inodePtr, desc => { desc with inodePtr := 0#32 }
  | filePos, desc => { desc with filePos := 0#32 }
  | flags, desc => { desc with flags := 1#32 }

/-- The effect of an assignment to `exec_pcb`; `parent` is the value for its parent. -/
def PcbStmt.set (v : LaunchVars) (parent : Option Pid) : PcbStmt → Pcb → Pcb
  | thePid, pcb => { pcb with thePid := v.i }
  | parentPcb, pcb => { pcb with parentPcb := parent }
  | filenameClear, pcb => { pcb with filename := List.replicate 32 0#8 }
  | filenameCopy, pcb => { pcb with filename := v.cmd.filename.bytesOf 0 32 }
  | argsClear, pcb => { pcb with args := pcb.args.overwrite (fun _ => 0#8) 129 }
  | argsCopy, pcb => { pcb with args := pcb.args.overwrite v.cmd.arg v.cmd.argLeng }
  | stdDesc fd field, pcb =>
    { pcb with
      filesysDescArray := Function.update pcb.filesysDescArray fd
        (field.set (pcb.filesysDescArray fd)) }
  | freeDesc fd, pcb =>
    { pcb with
      filesysDescArray := Function.update pcb.filesysDescArray fd
        { pcb.filesysDescArray fd with flags := 0#32 } }

/-- The effect of a statement on the process globals; `none` when a null parent is followed. -/
def LaunchStmt.run (v : LaunchVars) (ps : Procs) : LaunchStmt → Option Procs
  | disableIrq | termsPid | enableIrq _ => some ps
  | flushTlb => some (ps.flushTlb v.i)
  | pcbStatus =>
    some { ps with pcbStatusArray := Function.update ps.pcbStatusArray v.i 1#8 }
  | load j =>
    some
      { ps with
        progPage := Function.update ps.progPage ps.cr3
          (Function.update (ps.progPage ps.cr3) (progImageOffset + j) (v.image j)) }
  | activeProcNum => some { ps with activeProcNum := ps.activeProcNum + 1#8 }
  | currPid => some { ps with currPid := v.i }
  | pcb stmt =>
    let parent := if ps.activeProcNum > 3#8 then some ps.currPid else none
    some (ps.setPcb v.i (stmt.set v parent))
  | tssSs0 => some { ps with tss := { ps.tss with ss0 := kernelDs } }
  | tssEsp0 => some { ps with tss := { ps.tss with esp0 := kernelStackTop ps.currPid } }
  | theEsp =>
    (ps.parent v.i).map fun parent => ps.setPcb parent fun pcb => { pcb with theEsp := v.currEsp }
  | theSs =>
    (ps.parent v.i).map fun parent =>
      ps.setPcb parent fun pcb => { pcb with theSs := kernelDs.setWidth 32 }
  | pageTable =>
    some
      { ps with
        pageTable := Function.update ps.pageTable ps.currPid (videoPage ps.currTerm) }
  | flushTlbCurr => some (ps.flushTlb ps.currPid)
  | terminalPid => some (ps.setTaskPid ps.currTerm ps.currPid)
  | shellEsp =>
    (ps.parent v.i).map fun parent =>
      { ps with
        shellEspArray := Function.update ps.shellEspArray (ps.pcbs parent).thePid v.jumpEsp }

/-- The effect of a statement on the kernel. -/
def Kernel.launchStmt (v : LaunchVars) (k : Kernel) (stmt : LaunchStmt) : Option Kernel :=
  (stmt.run v k.procs).map fun procs =>
    match stmt with
    | .disableIrq => k.disableIrq 0#32
    | .enableIrq irqNum => k.enableIrq irqNum
    | .termsPid =>
      { k with
        con := k.con.setTerm k.procs.currTerm fun term => { term with pid := k.procs.currPid } }
    | _ => { k with procs }

/-- The statements before `pcb_status_array[i]=1`. -/
def beforeStatus : List LaunchStmt := [.disableIrq, .flushTlb]

/-- The statements between that and `curr_pid=i`. -/
def beforeCurrPid (v : LaunchVars) : List LaunchStmt :=
  (List.range v.imageSize).map .load ++ [.pcb .thePid, .activeProcNum, .pcb .parentPcb]

/-- The assignments to the PCB behind it, of the name, the argument and the descriptors. -/
def fillStmts : List PcbStmt :=
  [.filenameClear, .filenameCopy, .argsClear, .argsCopy,
    .stdDesc 0 .fileOpsTablePtr, .stdDesc 0 .inodePtr, .stdDesc 0 .filePos, .stdDesc 0 .flags,
    .stdDesc 1 .fileOpsTablePtr, .stdDesc 1 .inodePtr, .stdDesc 1 .filePos, .stdDesc 1 .flags,
    .freeDesc 2, .freeDesc 3, .freeDesc 4, .freeDesc 5, .freeDesc 6, .freeDesc 7]

/-- The statements between `curr_pid=i` and the save in `shell_esp_array`. -/
def beforeShellEsp : List LaunchStmt :=
  .termsPid :: fillStmts.map .pcb ++
    [.tssSs0, .tssEsp0, .theEsp, .theSs, .pageTable, .flushTlbCurr, .terminalPid, .enableIrq 0#32,
      .enableIrq 8#32]

/-- The statements of a launch. -/
def launchProgram (v : LaunchVars) : List LaunchStmt :=
  beforeStatus ++ .pcbStatus :: (beforeCurrPid v ++ .currPid :: (beforeShellEsp ++ [.shellEsp]))

/-- What `execute` has found when it takes a process that is no root shell's. -/
def launchVars (env : Env) (command stack : Buffer) (k : Kernel) : Option LaunchVars := do
  let cmd ← parseCommand command
  match findProgram env.img cmd stack with
  | .error _ => none
  | .ok prog =>
    match ← findFree k.procs.pcbStatusArray env.statusAfter with
    | none => none
    | some i =>
      if IsRootPid i ∨ LoadFails env.img prog.inodeNum (k.procs.progPage i) then none
      else
        some
          { i, cmd
            progEip := prog.progEip
            image := env.img.fileByte prog.inodeNum
            imageSize := imageSize env.img prog.inodeNum
            currEsp := k.procs.tss.esp0 - env.executeFrame
            jumpEsp := k.procs.tss.esp0 - env.executeFrame - env.jumpFrame }

/-! ## What they leave alone -/

/-- What the statements `done` of a launch can change of the processes: the status of the new
process and the current pid in one statement each, and no other process's parent or pid. -/
structure LaunchKeeps (v : LaunchVars) (done : List LaunchStmt) (ps ps' : Procs) : Prop where
  pcbStatusArray : ps'.pcbStatusArray =
    if .pcbStatus ∈ done then Function.update ps.pcbStatusArray v.i 1#8 else ps.pcbStatusArray
  currPid : ps'.currPid = if .currPid ∈ done then v.i else ps.currPid
  currTerm : ps'.currTerm = ps.currTerm
  parent : ∀ p, p ≠ v.i → ps'.parent p = ps.parent p
  thePid : ∀ p, p ≠ v.i → (ps'.pcbs p).thePid = (ps.pcbs p).thePid

section

variable {v : LaunchVars} {ps ps' ps'' : Procs} {k k' : Kernel} {done rest : List LaunchStmt}

namespace LaunchKeeps

theorem refl (v : LaunchVars) (ps : Procs) : LaunchKeeps v [] ps ps :=
  ⟨rfl, rfl, rfl, fun _ _ => rfl, fun _ _ => rfl⟩

theorem trans (h : LaunchKeeps v done ps ps') (h' : LaunchKeeps v rest ps' ps'') :
    LaunchKeeps v (done ++ rest) ps ps'' where
  pcbStatusArray := by
    rw [h'.pcbStatusArray, h.pcbStatusArray]
    -- the status is assigned in one of the two parts, or in none
    by_cases hdone : .pcbStatus ∈ done <;> simp [hdone]
  currPid := by
    rw [h'.currPid, h.currPid]
    by_cases hdone : .currPid ∈ done <;> simp [hdone]
  currTerm := h'.currTerm.trans h.currTerm
  parent p hp := (h'.parent p hp).trans (h.parent p hp)
  thePid p hp := (h'.thePid p hp).trans (h.thePid p hp)

/-- An assignment to a PCB that keeps its parent and its pid, if it is another process's. -/
theorem setPcb {stmt : LaunchStmt} (hstatus : stmt ≠ .pcbStatus) (hcurr : stmt ≠ .currPid)
    (q : Pid) {f : Pcb → Pcb} (hparent : q ≠ v.i → ∀ pcb, (f pcb).parentPcb = pcb.parentPcb)
    (hthePid : q ≠ v.i → ∀ pcb, (f pcb).thePid = pcb.thePid) :
    LaunchKeeps v [stmt] ps (ps.setPcb q f) where
  pcbStatusArray := by simp [hstatus.symm, Procs.setPcb]
  currPid := by simp [hcurr.symm, Procs.setPcb]
  currTerm := rfl
  parent p hp := by
    show (Function.update ps.pcbs q _ p).parentPcb = _
    -- the PCB that is assigned to, or another one
    by_cases hq : p = q
    · subst hq
      rw [Function.update_self]
      exact hparent hp _
    · rw [Function.update_of_ne hq]
      rfl
  thePid p hp := by
    show (Function.update ps.pcbs q _ p).thePid = _
    by_cases hq : p = q
    · subst hq
      rw [Function.update_self]
      exact hthePid hp _
    · rw [Function.update_of_ne hq]

/-- One statement. -/
theorem of_run {stmt : LaunchStmt} (h : stmt.run v ps = some ps') :
    LaunchKeeps v [stmt] ps ps' := by
  cases stmt with
  | theEsp =>
    obtain ⟨parent, -, rfl⟩ := Option.map_eq_some_iff.mp h
    exact setPcb (by simp) (by simp) parent (fun _ _ => rfl) fun _ _ => rfl
  | theSs =>
    obtain ⟨parent, -, rfl⟩ := Option.map_eq_some_iff.mp h
    exact setPcb (by simp) (by simp) parent (fun _ _ => rfl) fun _ _ => rfl
  | shellEsp =>
    obtain ⟨parent, -, rfl⟩ := Option.map_eq_some_iff.mp h
    exact ⟨by simp, by simp, rfl, fun _ _ => rfl, fun _ _ => rfl⟩
  | pcb stmt =>
    obtain rfl := Option.some.inj h
    -- the PCB of the new process, about whose parent and pid nothing is said
    exact setPcb (by simp) (by simp) v.i (fun hi => absurd rfl hi) fun hi => absurd rfl hi
  | _ =>
    -- the other statements assign globals
    obtain rfl := Option.some.inj h
    exact ⟨by simp [Procs.flushTlb, Procs.setTaskPid], by simp [Procs.flushTlb, Procs.setTaskPid],
      rfl, fun _ _ => rfl, fun _ _ => rfl⟩

/-- Statements in a row. -/
theorem of_exec (h : exec (LaunchStmt.run v) ps done = some ps') : LaunchKeeps v done ps ps' := by
  induction done generalizing ps with
  | nil =>
    obtain rfl := Option.some.inj h
    exact refl v ps
  | cons stmt done ih =>
    obtain ⟨ps₁, hrun, hexec⟩ := exec_cons_eq_some.mp h
    exact (of_run hrun).trans (ih hexec)

end LaunchKeeps

/-- On the process globals a statement is `LaunchStmt.run`. -/
theorem procs_launchStmt (v : LaunchVars) (k : Kernel) (stmt : LaunchStmt) :
    (k.launchStmt v stmt).map Kernel.procs = stmt.run v k.procs := by
  rw [Kernel.launchStmt, Option.map_map]
  cases stmt <;> first | rfl | exact Option.map_id' ..

/-- So are statements in a row. -/
theorem procs_exec (v : LaunchVars) (k : Kernel) (stmts : List LaunchStmt) :
    (exec (Kernel.launchStmt v) k stmts).map Kernel.procs =
      exec (LaunchStmt.run v) k.procs stmts :=
  map_exec (procs_launchStmt v) k stmts

theorem exec_run (h : exec (Kernel.launchStmt v) k done = some k') :
    exec (LaunchStmt.run v) k.procs done = some k'.procs := by
  rw [← procs_exec, h]
  rfl

/-- The screen a launch is interrupted with is the one it began with. -/
theorem termOnScreen_exec (h : exec (Kernel.launchStmt v) k done = some k') :
    k'.con.termOnScreen = k.con.termOnScreen := by
  refine exec_invariant (I := fun s => s.con.termOnScreen = k.con.termOnScreen)
    (P := fun _ _ => True) ?_ rfl (along_of_forall (P := fun _ => True) (fun _ _ => trivial) _) h
  intro s stmt s' hs _ hstep
  obtain ⟨procs, -, rfl⟩ := Option.map_eq_some_iff.mp hstep
  rw [← hs]
  cases stmt <;> rfl

end

/-! ## Together they are `execute` -/

section

variable {v : LaunchVars} {ps ps' : Procs} {k k' : Kernel} {done : List LaunchStmt}

/-- The load of the first bytes of a file, one by one. -/
theorem exec_load (n : ℕ) :
    exec (LaunchStmt.run v) ps ((List.range n).map .load) =
      some { ps with
        progPage := Function.update ps.progPage ps.cr3
          ((ps.progPage ps.cr3).splice progImageOffset v.image n) } := by
  induction n with
  | zero =>
    rw [Buffer.splice_zero, Function.update_eq_self]
    rfl
  | succ n ih =>
    -- the last byte is stored behind those before
    rw [List.range_succ, List.map_append, exec_append, ih, Option.bind_some]
    show some _ = some _
    simp only [Function.update_self, Function.update_idem, Buffer.splice_succ]

/-- Assignments to `exec_pcb` in a row. -/
theorem exec_pcb (stmts : List PcbStmt) :
    exec (LaunchStmt.run v) ps (stmts.map .pcb) =
      some (ps.setPcb v.i fun pcb => stmts.foldl
        (fun pcb stmt => stmt.set v (if ps.activeProcNum > 3#8 then some ps.currPid else none) pcb)
        pcb) := by
  induction stmts generalizing ps with
  | nil =>
    show some ps = some _
    rw [Procs.setPcb, List.foldl_nil, Function.update_eq_self]
  | cons stmt stmts ih =>
    -- the value for the parent does not change meanwhile
    rw [List.map_cons, exec_cons]
    show exec _ _ _ = _
    rw [ih]
    simp only [Procs.setPcb, Function.update_idem, Function.update_self, List.foldl_cons]
    rfl

/-- The descriptors they leave. -/
theorem foldl_fillStmts (parent : Option Pid) (pcb : Pcb) :
    fillStmts.foldl (fun pcb stmt => stmt.set v parent pcb) pcb =
      { pcb with
        filename := v.cmd.filename.bytesOf 0 32
        args := (pcb.args.overwrite (fun _ => 0#8) 129).overwrite v.cmd.arg v.cmd.argLeng
        filesysDescArray := initDescs pcb.filesysDescArray } := by
  have hdescs : (fillStmts.foldl (fun pcb stmt => stmt.set v parent pcb) pcb).filesysDescArray =
      initDescs pcb.filesysDescArray := by
    -- descriptor by descriptor: two are assigned field by field, the flags of the other ones
    funext fd
    fin_cases fd <;> rfl
  rw [← hdescs]
  rfl

/-- The statements that fill the PCB and make the process the current one. -/
theorem exec_fill :
    exec (LaunchStmt.run v) ps
        ([LaunchStmt.pcb .thePid, .activeProcNum, .pcb .parentPcb] ++
          LaunchStmt.currPid :: LaunchStmt.termsPid :: fillStmts.map LaunchStmt.pcb) =
      some (ps.fill v.i v.cmd) := by
  refine (exec_cons_of_eq rfl).trans ?_
  refine (exec_cons_of_eq rfl).trans ?_
  refine (exec_cons_of_eq rfl).trans ?_
  refine (exec_cons_of_eq rfl).trans ?_
  refine (exec_cons_of_eq rfl).trans ?_
  rw [exec_pcb]
  simp only [foldl_fillStmts, Procs.setPcb, Function.update_idem, Function.update_self]
  rfl

section Parent

variable {parent : Pid}

theorem run_theEsp (h : ps.parent v.i = some parent) : LaunchStmt.theEsp.run v ps =
    some (ps.setPcb parent fun pcb => { pcb with theEsp := v.currEsp }) := by
  rw [LaunchStmt.run, h, Option.map_some]

theorem run_theSs (h : ps.parent v.i = some parent) : LaunchStmt.theSs.run v ps =
    some (ps.setPcb parent fun pcb => { pcb with theSs := kernelDs.setWidth 32 }) := by
  rw [LaunchStmt.run, h, Option.map_some]

theorem run_shellEsp (h : ps.parent v.i = some parent) : LaunchStmt.shellEsp.run v ps =
    some { ps with
      shellEspArray := Function.update ps.shellEspArray (ps.pcbs parent).thePid v.jumpEsp } := by
  rw [LaunchStmt.run, h, Option.map_some]

/-- The parent of the process survives assignments to the PCB of the parent. -/
theorem parent_setPcb (h : ps.parent v.i = some parent) {f : Pcb → Pcb}
    (hf : ∀ pcb, (f pcb).parentPcb = pcb.parentPcb) :
    (ps.setPcb parent f).parent v.i = some parent := by
  rw [← h]
  show (Function.update ps.pcbs parent (f (ps.pcbs parent)) v.i).parentPcb = _
  -- the process could be its own parent as far as this lemma goes
  by_cases hi : v.i = parent
  · rw [hi, Function.update_self, hf]
    rfl
  · rw [Function.update_of_ne hi]
    rfl

/-- The statements behind them enter the process and block its parent. -/
theorem exec_enter (h : ps.parent v.i = some parent) (hcurr : ps.currPid = v.i) :
    exec (LaunchStmt.run v) ps
        [.tssSs0, .tssEsp0, .theEsp, .theSs, .pageTable, .flushTlbCurr, .terminalPid,
          .enableIrq 0#32, .enableIrq 8#32, .shellEsp] =
      some ((ps.enter v.i).block parent v.i v.currEsp v.jumpEsp) := by
  let ps₁ : Procs := { ps with tss := { esp0 := kernelStackTop ps.currPid, ss0 := kernelDs } }
  let ps₂ := ps₁.setPcb parent fun pcb => { pcb with theEsp := v.currEsp }
  let ps₃ := ps₂.setPcb parent fun pcb => { pcb with theSs := kernelDs.setWidth 32 }
  -- the parent pointer is followed three times, with assignments to the PCB of the parent between
  have h₁ : ps₁.parent v.i = some parent := h
  have h₂ : ps₂.parent v.i = some parent := parent_setPcb h₁ fun _ => rfl
  have h₃ : ps₃.parent v.i = some parent := parent_setPcb h₂ fun _ => rfl
  let ps₄ := Procs.setTaskPid
    { ps₃ with pageTable := Function.update ps.pageTable ps.currPid (videoPage ps.currTerm)
               cr3 := ps.currPid } ps.currTerm ps.currPid
  have h₄ : ps₄.parent v.i = some parent := h₃
  refine (exec_cons_of_eq rfl).trans ?_
  refine (exec_cons_of_eq rfl).trans ?_
  refine (exec_cons_of_eq (run_theEsp h₁)).trans ?_
  refine (exec_cons_of_eq (run_theSs h₂)).trans ?_
  refine (exec_cons_of_eq rfl).trans ?_
  refine (exec_cons_of_eq rfl).trans ?_
  refine (exec_cons_of_eq rfl).trans ?_
  refine (exec_cons_of_eq rfl).trans ?_
  refine (exec_cons_of_eq rfl).trans ?_
  refine (exec_cons_of_eq (run_shellEsp h₄)).trans ?_
  rw [exec_nil, Option.some.injEq]
  simp only [ps₁, ps₂, ps₃, ps₄, Procs.setPcb, Procs.setTaskPid, Procs.block, Procs.enter, hcurr,
    Function.update_idem, Function.update_self]

end Parent

/-- The statements that take a process and load its program. -/
theorem exec_take (hroot : ¬ IsRootPid v.i) :
    exec (LaunchStmt.run v) ps
        (beforeStatus ++ .pcbStatus :: (List.range v.imageSize).map .load) =
      some (ps.take v.i ((ps.progPage v.i).splice progImageOffset v.image v.imageSize)) := by
  refine (exec_cons_of_eq rfl).trans ?_
  refine (exec_cons_of_eq rfl).trans ?_
  refine (exec_cons_of_eq rfl).trans ?_
  rw [exec_load, Procs.take, if_neg hroot]
  rfl

/-- On the process globals, the statements take a process, fill its PCB, enter it and block its
parent. -/
theorem exec_launchProgram {parent : Pid} (hroot : ¬ IsRootPid v.i)
    (hparent : ps.newParent = some parent) :
    exec (LaunchStmt.run v) ps (launchProgram v) =
      some ((((ps.take v.i ((ps.progPage v.i).splice progImageOffset v.image v.imageSize)).fill v.i
        v.cmd).enter v.i).block parent v.i v.currEsp v.jumpEsp) := by
  -- the statements in the order of the parts of `execute`
  have hsplit : launchProgram v =
      (beforeStatus ++ LaunchStmt.pcbStatus :: (List.range v.imageSize).map LaunchStmt.load) ++
        (([LaunchStmt.pcb .thePid, .activeProcNum, .pcb .parentPcb] ++
          LaunchStmt.currPid :: LaunchStmt.termsPid :: fillStmts.map LaunchStmt.pcb) ++
        [LaunchStmt.tssSs0, .tssEsp0, .theEsp, .theSs, .pageTable, .flushTlbCurr, .terminalPid,
          .enableIrq 0#32, .enableIrq 8#32, .shellEsp]) := by
    simp only [launchProgram, beforeCurrPid, beforeShellEsp, List.append_assoc, List.cons_append,
      List.nil_append]
  rw [hsplit, exec_append, exec_take hroot, Option.bind_some, exec_append, exec_fill,
    Option.bind_some]
  refine exec_enter ?_ rfl
  rw [Procs.parent_fill, if_pos rfl]
  exact hparent

/-! ## On the kernel -/

/-- A statement that assigns process globals only. -/
def LaunchStmt.ProcsOnly : LaunchStmt → Prop
  | disableIrq | termsPid | enableIrq _ => False
  | _ => True

theorem exec_procsOnly {stmts : List LaunchStmt} (h : ∀ stmt ∈ stmts, stmt.ProcsOnly) :
    exec (Kernel.launchStmt v) k stmts =
      (exec (LaunchStmt.run v) k.procs stmts).map fun procs => { k with procs } := by
  induction stmts generalizing k with
  | nil => rfl
  | cons stmt stmts ih =>
    -- the statement does to the kernel what it does to the process globals
    have hstep : k.launchStmt v stmt = (stmt.run v k.procs).map fun procs => { k with procs } := by
      have hstmt := h stmt List.mem_cons_self
      cases stmt <;> first | exact absurd hstmt id | rfl
    rw [exec_cons, exec_cons, hstep, Option.map_bind, Option.bind_map]
    refine congrArg _ (funext fun procs => ?_)
    exact ih fun stmt hstmt => h stmt (List.mem_cons_of_mem _ hstmt)

/-- Besides the process globals a launch writes the pid of the terminal and the masks. -/
theorem exec_launchStmt (h : exec (LaunchStmt.run v) k.procs (launchProgram v) = some ps') :
    exec (Kernel.launchStmt v) k (launchProgram v) =
      some (({ k.disableIrq 0#32 with
        procs := ps'
        con := k.con.setTerm k.procs.currTerm fun term => { term with pid := v.i } }.enableIrq
          0#32).enableIrq 8#32) := by
  -- between the statements that do more
  let toCurrPid : List LaunchStmt := .flushTlb :: .pcbStatus :: (beforeCurrPid v ++ [.currPid])
  let toTerminalPid : List LaunchStmt := fillStmts.map .pcb ++
    [.tssSs0, .tssEsp0, .theEsp, .theSs, .pageTable, .flushTlbCurr, .terminalPid]
  have hsplit : launchProgram v = .disableIrq :: (toCurrPid ++ .termsPid ::
      (toTerminalPid ++ [.enableIrq 0#32, .enableIrq 8#32, .shellEsp])) := by
    simp only [launchProgram, beforeStatus, beforeShellEsp, toCurrPid, toTerminalPid,
      List.append_assoc, List.cons_append, List.nil_append]
  have hfirst : ∀ stmt ∈ toCurrPid, stmt.ProcsOnly := by
    simp only [toCurrPid, beforeCurrPid, List.mem_cons, List.mem_append, List.mem_map]
    rintro _ (rfl | rfl | (⟨j, -, rfl⟩ | rfl | rfl | rfl | h) | rfl | h)
    all_goals trivial
  have hsecond : ∀ stmt ∈ toTerminalPid, stmt.ProcsOnly := by
    simp only [toTerminalPid, List.mem_cons, List.mem_append, List.mem_map]
    rintro _ (⟨stmt, -, rfl⟩ | rfl | rfl | rfl | rfl | rfl | rfl | rfl | h)
    all_goals trivial
  rw [hsplit] at h ⊢
  obtain ⟨_, hdisable, h⟩ := exec_cons_eq_some.mp h
  obtain rfl := Option.some.inj hdisable
  rw [exec_append, Option.bind_eq_some_iff] at h
  obtain ⟨ps₁, h₁, h⟩ := h
  obtain ⟨_, hterms, h⟩ := exec_cons_eq_some.mp h
  obtain rfl := Option.some.inj hterms
  rw [exec_append, Option.bind_eq_some_iff] at h
  obtain ⟨ps₂, h₂, h₃⟩ := h
  -- the new process is the current one when its pid is written to the terminal
  have hkeeps := LaunchKeeps.of_exec h₁
  have hcurr : ps₁.currPid = v.i := by
    rw [hkeeps.currPid, if_pos (by simp [toCurrPid])]
  refine (exec_cons_of_eq rfl).trans ?_
  rw [exec_append, exec_procsOnly hfirst]
  show Option.bind (Option.map _ (exec (LaunchStmt.run v) k.procs toCurrPid)) _ = _
  rw [h₁, Option.map_some, Option.bind_some]
  refine (exec_cons_of_eq rfl).trans ?_
  rw [exec_append, exec_procsOnly hsecond]
  show Option.bind (Option.map _ (exec (LaunchStmt.run v) ps₁ toTerminalPid)) _ = _
  rw [h₂, Option.map_some, Option.bind_some]
  refine (exec_cons_of_eq rfl).trans ?_
  refine (exec_cons_of_eq rfl).trans ?_
  -- the last statement assigns `shell_esp_array`
  have hlast : ∀ stmt ∈ [LaunchStmt.shellEsp], stmt.ProcsOnly := by
    rintro stmt hstmt
    obtain rfl := List.mem_singleton.mp hstmt
    trivial
  rw [exec_procsOnly hlast]
  show Option.map _ (exec (LaunchStmt.run v) ps₂ [.shellEsp]) = _
  rw [show exec (LaunchStmt.run v) ps₂ [.shellEsp] = some ps' from h₃, Option.map_some, ← hcurr,
    ← hkeeps.currTerm]
  rfl

/-- What `execute` has found. -/
theorem launchVars_eq_some {env : Env} {command stack : Buffer}
    (h : launchVars env command stack k = some v) :
    ∃ prog, parseCommand command = some v.cmd ∧ findProgram env.img v.cmd stack = .ok prog ∧
      findFree k.procs.pcbStatusArray env.statusAfter = some (some v.i) ∧ ¬ IsRootPid v.i ∧
      ¬ LoadFails env.img prog.inodeNum (k.procs.progPage v.i) ∧
      v = { i := v.i, cmd := v.cmd
            progEip := prog.progEip
            image := env.img.fileByte prog.inodeNum
            imageSize := imageSize env.img prog.inodeNum
            currEsp := k.procs.tss.esp0 - env.executeFrame
            jumpEsp := k.procs.tss.esp0 - env.executeFrame - env.jumpFrame } := by
  obtain ⟨cmd, hcmd, h⟩ := Option.bind_eq_some_iff.mp h
  cases hfind : findProgram env.img cmd stack with
  | error e => simp [hfind] at h
  | ok prog =>
    simp only [hfind] at h
    obtain ⟨found, hfound, h⟩ := Option.bind_eq_some_iff.mp h
    cases found with
    | none => simp at h
    | some i =>
      simp only at h
      split_ifs at h with hno
      rw [not_or] at hno
      obtain rfl := Option.some.inj h
      exact ⟨prog, hcmd, hfind, hfound, hno.1, hno.2, rfl⟩

/-- Without an interrupt the statements of a launch are the call of `execute`. -/
theorem execute_eq_exec {env : Env} {command stack : Buffer} {parent : Pid}
    (h : launchVars env command stack k = some v) (hshells : ¬ k.procs.activeRootShell < 3#8)
    (hparent : k.procs.newParent = some parent) :
    execute env command stack k =
      (exec (Kernel.launchStmt v) k (launchProgram v)).map fun k' => (.userMode v.progEip, k') := by
  obtain ⟨prog, hcmd, hfind, hfound, hroot, hload, hv⟩ := launchVars_eq_some h
  obtain ⟨-, -, entry, -, hinode, hbad, -⟩ := findProgram_eq_ok hfind
  rw [exec_launchStmt (exec_launchProgram hroot hparent), Option.map_some]
  -- the page of the process is loaded as `execute` does it
  have himage : (k.procs.progPage v.i).splice progImageOffset v.image v.imageSize =
      (loadProgram env.img prog.inodeNum (k.procs.progPage v.i)).2 := by
    rw [loadProgram_eq hbad, hv]
    rfl
  rw [himage]
  generalize hpage : (loadProgram env.img prog.inodeNum (k.procs.progPage v.i)).2 = page
  have hshells' : ¬ ((k.procs.take v.i page).fill v.i v.cmd).activeRootShell < 3#8 := by
    show ¬ (k.procs.take v.i page).activeRootShell < 3#8
    rwa [Procs.take, if_neg hroot]
  -- the parent that has been computed for the PCB is the one that is entered there
  have hnew : (((k.procs.take v.i page).fill v.i v.cmd).pcbs v.i).parentPcb = some parent := by
    rw [← hparent]
    show ((k.procs.take v.i page).fill v.i v.cmd).parent v.i = _
    rw [Procs.parent_fill, if_pos rfl]
    rfl
  have heip : v.progEip = prog.progEip := by rw [hv]
  have hesp : v.currEsp = k.procs.tss.esp0 - env.executeFrame := by rw [hv]
  have hjump : v.jumpEsp = k.procs.tss.esp0 - env.executeFrame - env.jumpFrame := by rw [hv]
  simp only [execute, hcmd, hfind, startProgram, Kernel.procs_disableIrq, hfound, hload, if_false,
    hpage, fillPcb, hshells', enterUserMode, hroot, hnew, heip, hesp, hjump, Option.bind_eq_bind,
    Option.bind_some]
  rfl

end

end Ece391
