import Ece391Os.Process.Coherence
import Ece391Os.Terminal.Line

/-!
# The search for a free process

`execute` looks for a free process with `while (pcb_status_array[i]) i++`, and compares `i` with 6
behind the loop. With all six processes busy the loop leaves the array.

* `statusMemory` is the memory from the array on; `searchReads` lists the loads of the loop, and
  `findFree_eq` says that `findFree` is its result.
* `AllocatesInTable`: the loads stay in the array, the call takes the least free process, which is
  on no terminal, and refuses without a change if there is none.
* `allocatesInTable_iff`: in every reachable state this is so exactly if a process is free.
-/

namespace Ece391

open Transition

/-- The memory from `pcb_status_array` on: the array, the byte behind it, and the rest. -/
def statusMemory (status : Pid → Byte) (statusAfter : Byte) (rest : Buffer) : Buffer := fun j =>
  if h : j < 6 then status ⟨j, h⟩ else Buffer.ofList [statusAfter] rest (j - 6)

/-- The indices of `pcb_status_array` the loop loads. -/
def searchReads (status : Pid → Byte) (statusAfter : Byte) (rest : Buffer) : List ℕ :=
  (statusMemory status statusAfter rest).scanReads fun b => b == 0#8

/-- The process belongs to a terminal. -/
def Live (ps : Procs) (p : Pid) : Prop := ∃ t, BelongsTo ps p t

/-- A call that looks for a process loads its entries in the table only; it takes the least free
process, which is not a live one, and returns without a change of the processes if none is free. -/
structure AllocatesInTable (env : Env) (rest command stack : Buffer) (k : Kernel) : Prop where
  reads : ∀ j ∈ searchReads k.procs.pcbStatusArray env.statusAfter rest, j < 6
  takes : (∃ p, k.procs.pcbStatusArray p = 0#8) →
    ∃ p r k', execute env command stack k = some (r, k') ∧ k.procs.pcbStatusArray p = 0#8 ∧
      (∀ j < p, k.procs.pcbStatusArray j ≠ 0#8) ∧ ¬ Live k.procs p ∧
      k'.procs.pcbStatusArray = Function.update k.procs.pcbStatusArray p 1#8
  full : (∀ p, k.procs.pcbStatusArray p ≠ 0#8) →
    ∃ e k', execute env command stack k = some (.exit e, k') ∧ k'.procs = k.procs

section

variable {env : Env} {command stack rest : Buffer} {cmd : Command} {prog : Program} {k : Kernel}
  {status : Pid → Byte} {statusAfter : Byte}

theorem statusMemory_of_lt (p : Pid) : statusMemory status statusAfter rest p.val = status p := by
  rw [statusMemory, dif_pos p.isLt]

theorem statusMemory_six : statusMemory status statusAfter rest 6 = statusAfter := rfl

/-- With every process busy the loop finds no zero in the array. -/
theorem statusMemory_ne_zero (hbusy : ∀ p, status p ≠ 0#8) {j : ℕ} (hj : j < 6) :
    statusMemory status statusAfter rest j ≠ 0#8 := by
  rw [statusMemory, dif_pos hj]
  exact hbusy ⟨j, hj⟩

/-- The loop ends in the array, or right behind it, or somewhere else. -/
theorem findFree_eq :
    findFree status statusAfter =
      ((statusMemory status statusAfter rest).scan fun b => b == 0#8).bind fun i =>
        if h : i < 6 then some (some ⟨i, h⟩) else if i = 6 then some none else none := by
  by_cases hfree : ∃ p, status p = 0#8
  · obtain ⟨i, hi, hfirst⟩ := exists_first_free hfree
    -- the first free entry is the first zero of the memory
    have hscan : ((statusMemory status statusAfter rest).scan fun b => b == 0#8) = some i.val := by
      refine Buffer.scan_eq_some.mpr ⟨by omega, ?_, fun j hj => ?_⟩
      · rw [statusMemory_of_lt, beq_iff_eq]
        exact hi
      · rw [statusMemory, dif_pos (hj.trans i.isLt), beq_iff_eq]
        exact hfirst ⟨j, hj.trans i.isLt⟩ hj
    rw [findFree_eq_some_some.mpr ⟨hi, hfirst⟩, hscan, Option.bind_some, dif_pos i.isLt]
  · have hbusy : ∀ p, status p ≠ 0#8 := not_exists.mp hfree
    -- what the test `i == 6` sees depends on the byte behind the array
    by_cases hafter : statusAfter = 0#8
    · have hscan : ((statusMemory status statusAfter rest).scan fun b => b == 0#8) = some 6 := by
        refine Buffer.scan_eq_some.mpr ⟨by omega, ?_, fun j hj => ?_⟩
        · rw [statusMemory_six, beq_iff_eq]
          exact hafter
        · rw [beq_iff_eq]
          exact statusMemory_ne_zero hbusy hj
      rw [findFree_eq_some_none.mpr ⟨hafter, hbusy⟩, hscan]
      rfl
    · -- the loop ends behind index 6, if it ends
      have hnone : findFree status statusAfter = none := by
        rw [findFree, List.find?_eq_none.mpr fun p _ => by rw [beq_iff_eq]; exact hbusy p]
        exact if_neg hafter
      rw [hnone]
      cases hscan : (statusMemory status statusAfter rest).scan fun b => b == 0#8 with
      | none => rfl
      | some m =>
        obtain ⟨-, hm, -⟩ := Buffer.scan_eq_some.mp hscan
        rw [beq_iff_eq] at hm
        have hlt : ¬ m < 6 := fun hlt => statusMemory_ne_zero hbusy hlt hm
        have hne : m ≠ 6 := by
          rintro rfl
          exact hafter hm
        rw [Option.bind_some, dif_neg hlt, if_neg hne]

/-- With every process busy the loop loads the byte behind the array. -/
theorem six_mem_searchReads (hbusy : ∀ p, status p ≠ 0#8) :
    6 ∈ searchReads status statusAfter rest := by
  refine Buffer.mem_scanReads.mpr ⟨by decide, fun i hi => ?_⟩
  rw [beq_iff_eq]
  exact statusMemory_ne_zero hbusy hi

/-- The loads stay in the array exactly if a process is free. -/
theorem forall_searchReads_lt_iff :
    (∀ j ∈ searchReads status statusAfter rest, j < 6) ↔ ∃ p, status p = 0#8 := by
  constructor
  · intro hreads
    by_contra hbusy
    exact absurd (hreads 6 (six_mem_searchReads (not_exists.mp hbusy))) (lt_irrefl 6)
  · rintro ⟨p, hp⟩ j hj
    by_contra hle
    apply (Buffer.mem_scanReads.mp hj).2 p.val (by omega)
    rw [statusMemory_of_lt, beq_iff_eq]
    exact hp

/-- A call that has found a program takes the first free process. -/
theorem execute_takes {S : Forest} {i : Pid} (hS : Represents k.procs S)
    (hcmd : parseCommand command = some cmd) (hfind : findProgram env.img cmd stack = .ok prog)
    (hfree : k.procs.pcbStatusArray i = 0#8)
    (hfirst : ∀ j < i, k.procs.pcbStatusArray j ≠ 0#8) :
    ∃ r k', execute env command stack k = some (r, k') ∧
      k'.procs.pcbStatusArray = Function.update k.procs.pcbStatusArray i 1#8 := by
  have hfound : findFree k.procs.pcbStatusArray env.statusAfter = some (some i) :=
    findFree_eq_some_some.mpr ⟨hfree, hfirst⟩
  by_cases hload : LoadFails env.img prog.inodeNum (k.procs.progPage i)
  · obtain ⟨k', page, hx, hprocs⟩ := execute_loadFail hcmd hfind hfree hfirst hload
    exact ⟨_, k', hx, by rw [hprocs]; rfl⟩
  · -- the root shells run, so the new process is a child of the one that runs
    have hroot : ¬ IsRootPid i := fun hi => hS.root_busy hi hfree
    let ps := k.procs.take i (loadProgram env.img prog.inodeNum (k.procs.progPage i)).2
    -- the counter of root shells is complete, so the call goes on as a child
    have hready : ¬ (ps.fill i cmd).activeRootShell < 3#8 := by
      have hactive : ps.activeRootShell = 3#8 := (if_neg hroot).trans hS.activeRootShell
      rw [show (ps.fill i cmd).activeRootShell = 3#8 from hactive]
      decide
    have hparent : ((ps.fill i cmd).pcbs i).parentPcb = some k.procs.currPid := by
      have hfill := Procs.parent_fill ps i i cmd
      rw [if_pos rfl] at hfill
      exact hfill.trans (hS.newParent_eq hfree _)
    have hstart : ∃ r k', startProgram env cmd prog (k.disableIrq 0#32) = some (r, k') ∧
        k'.procs.pcbStatusArray = Function.update k.procs.pcbStatusArray i 1#8 := by
      simp only [startProgram, Kernel.procs_disableIrq, hfound, Option.bind_eq_bind,
        Option.bind_some, if_neg hload, fillPcb, enterUserMode, if_neg hroot]
      rw [if_neg hready, hparent]
      exact ⟨_, _, rfl, rfl⟩
    obtain ⟨r, k', hstart, hstatus⟩ := hstart
    refine ⟨r, k', ?_, hstatus⟩
    simp only [execute, hcmd, hfind, Option.bind_eq_bind, Option.bind_some, hstart]

/-- A free process is on no terminal. -/
theorem Represents.not_live {S : Forest} {ps : Procs} {p : Pid} (hS : Represents ps S)
    (hfree : ps.pcbStatusArray p = 0#8) : ¬ Live ps p := by
  rintro ⟨t, l, hl, hp⟩
  rw [hl.unique (hS.walk t)] at hp
  exact hS.not_mem_of_free hfree ⟨t, hp⟩

end

/-- In every reachable state, a call that has found a program stays in the table, takes the least
free process, or refuses without a change of the processes, exactly if there is a free process. -/
theorem allocatesInTable_iff {env : Env} {ram : BootRam} {r : ExecResult} {k₀ k : Kernel}
    {es : List SystemEvent} {command stack : Buffer} {cmd : Command} {prog : Program}
    (hshell : ValidShell env.img) (hentry : entry env ram = some (r, k₀))
    (hrun : exec (systemStep env) k₀ es = some k) (hcmd : parseCommand command = some cmd)
    (hfind : findProgram env.img cmd stack = .ok prog) (rest : Buffer) :
    AllocatesInTable env rest command stack k ↔ ∃ p, k.procs.pcbStatusArray p = 0#8 := by
  obtain ⟨⟨S, hS⟩, -⟩ := reachable_systemStep hshell hentry hrun
  constructor
  · intro h
    exact forall_searchReads_lt_iff.mp h.reads
  · intro hfree
    refine ⟨forall_searchReads_lt_iff.mpr hfree, fun _ => ?_, fun hbusy => ?_⟩
    · obtain ⟨i, hi, hfirst⟩ := exists_first_free hfree
      obtain ⟨r, k', hx, hstatus⟩ := execute_takes hS hcmd hfind hi hfirst
      exact ⟨i, r, k', hx, hi, hfirst, hS.not_live hi, hstatus⟩
    · obtain ⟨p, hp⟩ := hfree
      exact absurd hp (hbusy p)

/-- Two launches on the first terminal. -/
def twoLaunches : List SystemEvent :=
  List.replicate 2
    (.output (.process (.execute (commandLine "shell") fun _ => 0#8)))

/-- Five processes are busy after the two launches, and the next launch takes the sixth. -/
theorem allocatesInTable_fiveBusy :
    ∃ r k₀ k, entry sampleEnv zeroRam = some (r, k₀) ∧
      exec (systemStep sampleEnv) k₀ twoLaunches = some k ∧
      (∀ p < 5, k.procs.pcbStatusArray p ≠ 0#8) ∧
      AllocatesInTable sampleEnv (fun _ => 0#8) (commandLine "shell") (fun _ => 0#8) k := by
  have hrun : (entry sampleEnv zeroRam).any fun x =>
      (exec (systemStep sampleEnv) x.2 twoLaunches).any fun k =>
        decide ((∀ p < 5, k.procs.pcbStatusArray p ≠ 0#8) ∧ k.procs.pcbStatusArray 5 = 0#8) := by
    decide +kernel
  simp only [Option.any_eq_true, decide_eq_true_eq] at hrun
  obtain ⟨⟨r, k₀⟩, hboot, k, hk, hbusy, hfree⟩ := hrun
  obtain ⟨cmd, hcmd⟩ := Option.isSome_iff_exists.mp
    (by decide +kernel : (parseCommand (commandLine "shell")).isSome)
  obtain ⟨prog, hfind, -⟩ := findProgram_shell validShell_sampleImage hcmd fun _ => 0#8
  refine ⟨r, k₀, k, hboot, hk, hbusy, ?_⟩
  exact (allocatesInTable_iff validShell_sampleImage hboot hk hcmd hfind _).mpr ⟨5, hfree⟩

/-- Behind them, a switch to the second terminal and a launch there. -/
def threeLaunches : List SystemEvent :=
  twoLaunches ++
    [.output (.process (.switchTerm 1)), .output (.process (.tick 0x1000#32)),
      .output (.process (.tick 0x1000#32)),
      .output (.process (.execute (commandLine "shell") fun _ => 0#8))]

/-- With two launches on the first terminal and one on the second, all six processes are busy, and
the search of the next call loads the byte behind the array. -/
theorem not_allocatesInTable_sixBusy :
    ∃ r k₀ k, entry sampleEnv zeroRam = some (r, k₀) ∧
      exec (systemStep sampleEnv) k₀ threeLaunches = some k ∧
      k.procs.currTerm = 1 ∧
      6 ∈ searchReads k.procs.pcbStatusArray sampleEnv.statusAfter (fun _ => 0#8) ∧
      ¬ AllocatesInTable sampleEnv (fun _ => 0#8) (commandLine "shell") (fun _ => 0#8) k := by
  have hrun : (entry sampleEnv zeroRam).any fun x =>
      (exec (systemStep sampleEnv) x.2 threeLaunches).any fun k =>
        decide (k.procs.currTerm = 1 ∧ ∀ p, k.procs.pcbStatusArray p ≠ 0#8) := by
    decide +kernel
  simp only [Option.any_eq_true, decide_eq_true_eq] at hrun
  obtain ⟨⟨r, k₀⟩, hboot, k, hk, hterm, hbusy⟩ := hrun
  -- the search leaves the array before the test for 6
  have hsix : 6 ∈ searchReads k.procs.pcbStatusArray sampleEnv.statusAfter (fun _ => 0#8) :=
    six_mem_searchReads hbusy
  exact ⟨r, k₀, k, hboot, hk, hterm, hsix, fun h => absurd (h.reads 6 hsix) (lt_irrefl 6)⟩

end Ece391
